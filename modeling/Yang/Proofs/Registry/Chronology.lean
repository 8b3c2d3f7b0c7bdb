import Yang.Proofs.Registry.Newest
import Yang.Proofs.Revision

/-!
# The latest module of a name

Revisions are compared as texts where the newest of them is looked for. All revisions in a tree
are canonical, and the modules of a registry have the revisions that they have in the tree. So the
newest revision of a name is the one with the latest date, and a module without revision is found
only where the others of its name have none either.
-/

namespace Yang

open Schema

namespace Revision

def dateOf (r : Option String) : Option Date := r.bind date?

section Latest

variable {α : Type} {revision : α → Option String} {p : α → Prop} {a : α} {r r' : Option String}

/-- The thing has the property, and none with the property has a later date.
Other than for the newest one, the texts of revisions are not compared. -/
def IsLatest (revision : α → Option String) (p : α → Prop) (a : α) : Prop :=
  p a ∧ ∀ b, p b → Date.NotLater (dateOf (revision b)) (dateOf (revision a))

theorem IsCanonical.bind_parse? (h : IsCanonical r) : r.bind parse? = r := by
  cases r with
  | none => rfl
  | some text =>
      obtain ⟨raw, hraw⟩ := h text rfl
      exact (parse?_parse? hraw).1

/-- A canonical revision names its date, and only a missing one has no date. -/
theorem IsCanonical.names_dateOf (h : IsCanonical r) : Option.Rel Names r (dateOf r) := by
  cases r with
  | none => exact .none
  | some text =>
      obtain ⟨raw, hraw⟩ := h text rfl
      obtain ⟨-, d, -, hd⟩ := parse?_parse? hraw
      rw [dateOf, Option.bind_some, date?_eq_some_iff.mpr hd]
      exact .some hd

theorem IsCanonical.le_iff (h : IsCanonical r) (h' : IsCanonical r') :
    le r r' = true ↔ Date.NotLater (dateOf r) (dateOf r') := by
  rw [← le_iff_notLater h.names_dateOf h'.names_dateOf, h.bind_parse?, h'.bind_parse?]

/-- Among canonical revisions the newest one has the latest date, because
canonical texts are ordered as the dates that they name. -/
theorem isNewest_iff_isLatest (canonical : ∀ b, p b → IsCanonical (revision b)) :
    IsNewest revision p a ↔ IsLatest revision p a := by
  refine and_congr_right fun ha => forall₂_congr fun b hb => ?_
  exact (canonical b hb).le_iff (canonical a ha)

end Latest

end Revision

namespace Registry

variable {r : Registry} {name : String}

theorem Consistent.isCanonical_of_mem (h : r.Consistent) (dated : r.tree.Dated) {m : Module}
    (hm : m ∈ r.indexed) : Revision.IsCanonical m.id.revision := by
  rw [(h.isOf_of_mem_indexed hm).id]
  exact dated m.root

/-- What a name without revision leads to, told by dates. -/
structure FindsLatest (t : Tree) (r : Registry) (name : String) : Prop where
  /-- The revisions of modules name dates of the calendar. -/
  dated : ∀ i, Option.Rel Revision.Names (t.revision? i) (Revision.dateOf (t.revision? i))
  /-- So do those of the modules that are registered. -/
  indexed_dated : ∀ m ∈ r.indexed,
    Option.Rel Revision.Names m.id.revision (Revision.dateOf m.id.revision)
  /-- The tree finds the latest of the modules of the name. -/
  findModule?_iff : ∀ root, t.findModule? name none = some root ↔
    Revision.IsLatest t.revision? (t.IsModule name) root
  /-- The registry finds the latest of the modules of the name that are registered. -/
  module?_iff : Name.IsBare name → ∀ m, r.module? ⟨name, none⟩ = some m ↔
    Revision.IsLatest (fun m => m.id.revision) (r.HasModule name) m

theorem Consistent.findsLatest (h : r.Consistent) (reachable : r.tree.Reachable)
    (found : ∀ m ∈ r.indexed, m.IsFound r.tree) (name : String) : FindsLatest r.tree r name where
  dated i := (reachable.dated i).names_dateOf
  indexed_dated m hm := (h.isCanonical_of_mem reachable.dated hm).names_dateOf
  findModule?_iff root := by
    rw [reachable.distinct.findModule?_eq_some_iff]
    exact Revision.isNewest_iff_isLatest fun i _ => reachable.dated i
  module?_iff bare m := by
    rw [h.module?_eq_newest? reachable.distinct found bare, h.newest?_eq_some_iff]
    exact Revision.isNewest_iff_isLatest fun m' hm' => h.isCanonical_of_mem reachable.dated hm'.1

/-- After any calls over a reachable tree names lead to the latest modules.
Newest and latest are the same there, as all revisions are canonical. -/
theorem findsLatest_after_calls {t : Tree} (reachable : t.Reachable) (limits : Limits)
    (requests : List Request) (name : String) :
    FindsLatest t (requests.foldl after { tree := t, limits := limits }) name := by
  have htree : (requests.foldl after { tree := t, limits := limits }).tree = t :=
    tree_foldl_after requests
  have hlatest := (consistent_after_calls t limits requests).findsLatest
    (by rwa [htree]) (isFound_after_calls t limits requests) name
  rwa [htree] at hlatest

end Registry

/-- Revisions have one canonical form, in the order of time. A text is read if
and only if it is written in one of the two forms and names a date of the
calendar, and it names only one. What is read names the same date and is read as
itself, and two texts are read as the same if and only if they name the same
date. What is read is in the order of the dates, a missing revision first, and
by this order the latest module of a name is found, in the tree of any
statements and in a registry over it after any calls. -/
theorem Revision.canonical_chronological :
    (∀ s, (∃ text, parse? s = some text) ↔ ∃ d, Names s d) ∧
    (∀ s d e, Names s d → Names s e → d = e) ∧
    (∀ s text, parse? s = some text →
      parse? text = some text ∧ ∃ d, Names s d ∧ Names text d) ∧
    (∀ s s' text text', parse? s = some text → parse? s' = some text' →
      (text = text' ↔ ∃ d, Names s d ∧ Names s' d)) ∧
    (∀ r r' d d', Option.Rel Names r d → Option.Rel Names r' d' →
      (le (r.bind parse?) (r'.bind parse?) = true ↔ Date.NotLater d d')) ∧
    ∀ (statements : List Statement) (limits : Limits) (requests : List Registry.Request)
      (name : String),
      Registry.FindsLatest (statements.foldl Tree.after {})
        (requests.foldl Registry.after { tree := statements.foldl Tree.after {}, limits := limits })
        name := by
  refine ⟨?accepted, fun s d e => Names.unique, fun s text => parse?_parse?,
    fun s s' text text' => parse?_eq_parse?_iff, fun r r' d d' => le_iff_notLater, ?latest⟩
  case accepted =>
    intro s
    constructor
    · rintro ⟨text, htext⟩
      obtain ⟨-, d, hd, -⟩ := parse?_parse? htext
      exact ⟨d, hd⟩
    · rintro ⟨d, hd⟩
      exact ⟨d.text, parse?_of_names hd⟩
  case latest =>
    intro statements limits requests name
    have reachable := Tree.Reachable.empty.foldl_after statements
    exact Registry.findsLatest_after_calls reachable limits requests name

/-- A leap day has both forms and is after the last day of the year before, and
the later store is found in a tree with two of them. -/
theorem Revision.canonical_chronological_leap_day :
    parse? "rev20240229" = some "2024-02-29" ∧ parse? "2024-02-29" = some "2024-02-29" ∧
      (∃ d, Names "rev20240229" d ∧ Names "2024-02-29" d) ∧
      (¬∃ d, Names "rev20230229" d) ∧
      Date.NotLater (some ⟨2023, 12, 31⟩) (some ⟨2024, 2, 29⟩) ∧
      Revision.IsLatest Registry.editions.revision? (Registry.editions.IsModule "store") 0 := by
  obtain ⟨accepted, -, again, same, order, latest⟩ := canonical_chronological
  have hcompact : parse? "rev20240229" = some "2024-02-29" := by decide
  obtain ⟨hdashed, -⟩ := again _ _ hcompact
  have hnone : parse? "rev20230229" = none := by decide
  have hyear : Names "2023-12-31" ⟨2023, 12, 31⟩ := date?_eq_some_iff.mp (by decide)
  have hleap : Names "rev20240229" ⟨2024, 2, 29⟩ := date?_eq_some_iff.mp (by decide)
  have hstores : Registry.FindsLatest Registry.editions Registry.withBothStores "store" :=
    latest _ {} [.register Registry.oldShop, .register Registry.newDesk] "store"
  have hfound : Registry.editions.findModule? "store" none = some 0 := by decide +kernel
  refine ⟨hcompact, hdashed, (same _ _ _ _ hcompact hdashed).mp rfl, ?_,
    (order _ _ _ _ (.some hyear) (.some hleap)).mp (by decide),
    (hstores.findModule?_iff 0).mp hfound⟩
  rw [← accepted, hnone]
  rintro ⟨text, htext⟩
  cases htext

end Yang
