import Mathlib.Data.List.Induction
import Yang.Proofs.Instance.Rejection
import Yang.Proofs.Success

/-!
# Appending identifiers

To go on from an identifier, append another one and build gives the keys of the first and behind
them those of the second. Keys are placed one by one, and each is refused behind the key of a
leaf-list entry; but in an identifier that was built only the last key can be one, so that it
matters at one place alone, where the two meet. The number of keys is checked once they are all
there. Wherever it is possible, appending is therefore associative, the identifier without keys
is its unit, and dropping as many keys as were appended undoes it.
-/

namespace Yang.Instance.ResourceId

open Builder

variable {a b c r : ResourceId}

/-- Some calls lead to a builder that gives the identifier. Identifiers that are
made otherwise may have their keys in any order. -/
def IsBuilt (r : ResourceId) : Prop := ∃ b : Builder, b.Reachable ∧ (b.call build).1 = .ok r

def EndsInLeafList (r : ResourceId) : Prop :=
  ∃ id value, r.keys.getLast? = some (.leafListEntry id value)

/-- The calls that append an identifier and build. -/
def extension (b : ResourceId) : Call ResourceId := do
  append b
  build

/-- What comes of going on from an identifier, appending another one and
building. The builder that goes on has the default limits. -/
def join (a b : ResourceId) : Except Error ResourceId := (a.builder.call (extension b)).1

/-- The second identifier can be appended to the first one: their keys may
follow each other, and there are not too many of them. -/
def Fits (a b : ResourceId) : Prop :=
  (¬a.EndsInLeafList ∨ b.keys = []) ∧
    a.keys.length + b.keys.length ≤ ({} : Limits).bound .pathDepth

theorem endsInLeafList_iff : r.EndsInLeafList ↔ r.builder.isClosed = true := by
  show r.EndsInLeafList ↔ r.keys.getLast?.any Key.isTerminal = true
  rw [EndsInLeafList]
  cases r.keys.getLast? with
  | none => simp
  | some k => cases k <;> simp [Key.isTerminal]

theorem not_endsInLeafList_iff : ¬r.EndsInLeafList ↔ r.builder.isClosed = false := by
  rw [endsInLeafList_iff, Bool.not_eq_true]

theorem endsInLeafList_append :
    EndsInLeafList ⟨a.keys ++ b.keys⟩ ↔ b.EndsInLeafList ∨ b.keys = [] ∧ a.EndsInLeafList := by
  by_cases hb : b.keys = []
  · simp [EndsInLeafList, hb]
  · simp [EndsInLeafList, hb, List.getLast?_append_of_ne_nil _ hb]

section Built

theorem IsBuilt.reachable (h : r.IsBuilt) : r.builder.Reachable := by
  obtain ⟨b, reachable, built⟩ := h
  exact .copy reachable built

/-- Of the keys of an identifier that was built, only the last one can be that
of an entry of a leaf-list. -/
theorem IsBuilt.orderly (h : r.IsBuilt) : ∀ k ∈ r.keys.dropLast, k.isTerminal = false :=
  h.reachable.orderly

theorem isBuilt_empty : IsBuilt {} := ⟨{}, .new, rfl⟩

end Built

namespace Builder

variable {s s' : Builder}

/-- Keys are placed one after the other exactly if the first of them may follow
what is there and none but the last is terminal. All of them are then behind the
keys that were there. -/
theorem call_forM_place_eq_ok_iff {keys : List Key} :
    s.call (keys.forM place) = (.ok (), s') ↔
      (keys ≠ [] → s.isClosed = false) ∧ (∀ k ∈ keys.dropLast, k.isTerminal = false) ∧
        { s with keys := s.keys ++ keys } = s' := by
  induction keys generalizing s with
  | nil =>
      show s.call (pure ()) = _ ↔ _
      simp
  | cons k keys ih =>
      show s.call (place k >>= fun _ => keys.forM place) = _ ↔ _
      constructor
      · intro h
        obtain ⟨_, next, hplace, hrest⟩ := call_bind_eq_ok_iff.mp h
        obtain ⟨hopen, rfl⟩ := call_place_eq_ok_iff.mp hplace
        obtain ⟨hfirst, hothers, rfl⟩ := ih.mp hrest
        rw [isClosed_concat] at hfirst
        refine ⟨fun _ => hopen, ?_, by simp⟩
        cases keys with
        | nil => simp
        | cons next keys =>
            rw [List.dropLast_cons_cons, List.forall_mem_cons]
            exact ⟨hfirst (List.cons_ne_nil _ _), hothers⟩
      · rintro ⟨hopen, horderly, rfl⟩
        have hplace : s.call (place k) = (.ok (), { s with keys := s.keys ++ [k] }) :=
          call_place_eq_ok_iff.mpr ⟨hopen (List.cons_ne_nil _ _), rfl⟩
        refine call_bind_eq_ok_iff.mpr ⟨(), _, hplace, ih.mpr ⟨?_, ?_, by simp⟩⟩
        · intro hne
          rw [isClosed_concat]
          apply horderly
          simp [List.dropLast_cons_of_ne_nil hne]
        · intro k' hk'
          apply horderly
          cases keys with
          | nil => cases hk'
          | cons next keys =>
              rw [List.dropLast_cons_cons]
              exact List.mem_cons_of_mem _ hk'

/-- Appended to an identifier, the keys of one that was built are placed unless
they would come behind an entry of a leaf-list. -/
theorem call_append_eq_ok_iff (hb : b.IsBuilt) :
    a.builder.call (append b) = (.ok (), s) ↔
      (¬a.EndsInLeafList ∨ b.keys = []) ∧ builder ⟨a.keys ++ b.keys⟩ = s := by
  have hsettle : a.builder.call settle = (.ok (), a.builder) := rfl
  have happend : a.builder.call (append b) = a.builder.call (b.keys.forM place) := by
    rw [append, appendKeys, call_bind, hsettle]
  rw [happend, call_forM_place_eq_ok_iff, not_endsInLeafList_iff]
  constructor
  · rintro ⟨hopen, -, rfl⟩
    refine ⟨?_, rfl⟩
    by_cases hempty : b.keys = []
    · exact .inr hempty
    · exact .inl (hopen hempty)
  · rintro ⟨hmeet, rfl⟩
    exact ⟨fun hne => hmeet.resolve_right hne, hb.orderly, rfl⟩

/-- To append and build succeeds exactly if the identifier fits, and then the
builder goes on from the result. -/
theorem call_extension_eq_ok_iff (hb : b.IsBuilt) :
    a.builder.call (extension b) = (.ok r, s) ↔
      a.Fits b ∧ r = ⟨a.keys ++ b.keys⟩ ∧ s = r.builder := by
  have hsettled : (builder ⟨a.keys ++ b.keys⟩).settled = builder ⟨a.keys ++ b.keys⟩ :=
    settled_of_pending _ rfl
  simp only [extension, call_bind_eq_ok_iff, call_append_eq_ok_iff hb, call_build_eq_ok_iff]
  constructor
  · rintro ⟨-, next, ⟨hmeet, rfl⟩, -, hdepth, rfl, rfl⟩
    rw [hsettled] at hdepth ⊢
    exact ⟨⟨hmeet, by simpa [builder] using hdepth⟩, rfl, rfl⟩
  · rintro ⟨⟨hmeet, hdepth⟩, rfl, rfl⟩
    refine ⟨(), _, ⟨hmeet, rfl⟩, nofun, ?_, hsettled, rfl⟩
    rw [hsettled]
    simpa [builder] using hdepth

theorem succeeds_removeLast (keys appended : List Key) :
    Succeeds (builder ⟨keys ++ appended⟩) (List.replicate appended.length .removeLast)
      (builder ⟨keys⟩) := by
  induction appended using List.reverseRecOn with
  | nil =>
      rw [List.append_nil]
      exact .nil _
  | append_singleton appended k ih =>
      have hdrop : (builder ⟨keys ++ (appended ++ [k])⟩).call Builder.removeLast =
          (.ok (), builder ⟨keys ++ appended⟩) := by
        rw [call_removeLast]
        simp [builder, ← List.append_assoc]
      rw [List.length_append, List.length_singleton, List.replicate_succ]
      exact .cons hdrop ih

end Builder

theorem join_eq_ok_iff (hb : b.IsBuilt) :
    a.join b = .ok r ↔ a.Fits b ∧ r = ⟨a.keys ++ b.keys⟩ := by
  constructor
  · intro h
    have hcall : a.builder.call (extension b) = (.ok r, (a.builder.call (extension b)).2) :=
      Prod.ext h rfl
    obtain ⟨hfits, hr, -⟩ := (call_extension_eq_ok_iff hb).mp hcall
    exact ⟨hfits, hr⟩
  · rintro ⟨hfits, hr⟩
    exact congrArg Prod.fst ((call_extension_eq_ok_iff hb).mpr ⟨hfits, hr, rfl⟩)

theorem IsBuilt.append (ha : a.IsBuilt) (hb : b.IsBuilt) (h : a.Fits b) :
    IsBuilt ⟨a.keys ++ b.keys⟩ := by
  have hplaced : a.builder.after (.append b) = builder ⟨a.keys ++ b.keys⟩ :=
    congrArg Prod.snd ((call_append_eq_ok_iff hb).mpr ⟨h.1, rfl⟩)
  refine ⟨a.builder.after (.append b), ha.reachable.call (.append b), ?_⟩
  rw [hplaced]
  have hbuild : (builder ⟨a.keys ++ b.keys⟩).call build =
      (.ok ⟨a.keys ++ b.keys⟩, builder ⟨a.keys ++ b.keys⟩) := by
    have hsettled : (builder ⟨a.keys ++ b.keys⟩).settled = builder ⟨a.keys ++ b.keys⟩ :=
      settled_of_pending _ rfl
    refine call_build_eq_ok_iff.mpr ⟨nofun, ?_, hsettled, rfl⟩
    rw [hsettled]
    simpa [builder] using h.2
  rw [hbuild]

/-- Of three identifiers, the first two fit and then the third exactly if the
last two fit and then the first. The number of keys is the same either way. -/
theorem fits_append_iff :
    a.Fits b ∧ Fits ⟨a.keys ++ b.keys⟩ c ↔ b.Fits c ∧ a.Fits ⟨b.keys ++ c.keys⟩ := by
  have hempty : b.keys = [] → ¬b.EndsInLeafList := by
    intro hb
    simp [EndsInLeafList, hb]
  simp only [Fits, List.length_append, List.append_eq_nil_iff, endsInLeafList_append]
  grind

/-- It does not matter which of two junctions of three identifiers is made
first. -/
theorem join_join_eq_ok_iff (hb : b.IsBuilt) (hc : c.IsBuilt) :
    (a.join b >>= fun ab => ab.join c) = .ok r ↔ (b.join c >>= fun bc => a.join bc) = .ok r := by
  have hleft : (a.join b >>= fun ab => ab.join c) = .ok r ↔
      (a.Fits b ∧ Fits ⟨a.keys ++ b.keys⟩ c) ∧ r = ⟨a.keys ++ b.keys ++ c.keys⟩ := by
    simp only [bind_eq_ok_iff, join_eq_ok_iff hb, join_eq_ok_iff hc, and_assoc,
      exists_and_left, exists_eq_left]
  have hright : (b.join c >>= fun bc => a.join bc) = .ok r ↔
      (b.Fits c ∧ a.Fits ⟨b.keys ++ c.keys⟩) ∧ r = ⟨a.keys ++ (b.keys ++ c.keys)⟩ := by
    rw [bind_eq_ok_iff]
    constructor
    · rintro ⟨bc, hbc, hr⟩
      obtain ⟨hfits, rfl⟩ := (join_eq_ok_iff hc).mp hbc
      obtain ⟨houter, rfl⟩ := (join_eq_ok_iff (hb.append hc hfits)).mp hr
      exact ⟨⟨hfits, houter⟩, rfl⟩
    · rintro ⟨⟨hfits, houter⟩, rfl⟩
      exact ⟨_, (join_eq_ok_iff hc).mpr ⟨hfits, rfl⟩,
        (join_eq_ok_iff (hb.append hc hfits)).mpr ⟨houter, rfl⟩⟩
  rw [hleft, hright, fits_append_iff, List.append_assoc]

/-- To go on from an identifier, append another one and build succeeds exactly
if the first does not end in the key of a leaf-list entry, unless nothing is
appended, and if the number of keys is within the default limit; the result has
the keys of the first and then those of the second. So appending is associative,
the identifier without keys is its unit, and dropping as many keys as were
appended gives the first identifier again. -/
theorem join_concatenates (ha : a.IsBuilt) (hb : b.IsBuilt) (hc : c.IsBuilt) :
    (∀ r, a.join b = .ok r ↔
      (¬a.EndsInLeafList ∨ b.keys = []) ∧
        a.keys.length + b.keys.length ≤ ({} : Limits).bound .pathDepth ∧
        r.keys = a.keys ++ b.keys) ∧
    (∀ r, (a.join b >>= fun ab => ab.join c) = .ok r ↔
      (b.join c >>= fun bc => a.join bc) = .ok r) ∧
    (∀ r, a.join {} = .ok r ↔
      a.keys.length ≤ ({} : Limits).bound .pathDepth ∧ r = a) ∧
    (∀ r, join {} a = .ok r ↔
      a.keys.length ≤ ({} : Limits).bound .pathDepth ∧ r = a) ∧
    ∀ r s, a.builder.call (extension b) = (.ok r, s) →
      s = r.builder ∧ ∃ s',
        Succeeds s (List.replicate b.keys.length .removeLast) s' ∧ (s'.call build).1 = .ok a := by
  refine ⟨?concatenates, fun r => join_join_eq_ok_iff hb hc, ?right, ?left, ?undone⟩
  case concatenates =>
    intro r
    have hkeys : r = ⟨a.keys ++ b.keys⟩ ↔ r.keys = a.keys ++ b.keys := by
      cases r
      simp
    rw [join_eq_ok_iff hb, Fits, and_assoc, hkeys]
  case right =>
    intro r
    simp [join_eq_ok_iff isBuilt_empty, Fits]
  case left =>
    intro r
    simp [join_eq_ok_iff ha, Fits, EndsInLeafList]
  case undone =>
    intro r s h
    obtain ⟨⟨-, hdepth⟩, rfl, rfl⟩ := (call_extension_eq_ok_iff hb).mp h
    refine ⟨rfl, a.builder, succeeds_removeLast a.keys b.keys, ?_⟩
    -- nothing is appended here, so the first identifier fits if both fit together
    have hfits : a.Fits {} := ⟨.inr rfl, Nat.le_trans (Nat.le_add_right _ _) hdepth⟩
    have hunit : a.join {} = .ok ⟨a.keys ++ []⟩ := (join_eq_ok_iff isBuilt_empty).mpr ⟨hfits, rfl⟩
    rwa [List.append_nil] at hunit

def crateLabel : ResourceId := ⟨[.plain ⟨"crate", "urn:store"⟩, labelKey]⟩

def note : ResourceId := ⟨[.plain ⟨"note", "urn:store"⟩]⟩

def tag : ResourceId := ⟨[tagKey]⟩

theorem isBuilt_crateLabel : crateLabel.IsBuilt :=
  ⟨_, .foldl_after .new [.branch ⟨"crate", "urn:store"⟩, .branch ⟨"label", "urn:store"⟩], rfl⟩

theorem isBuilt_note : note.IsBuilt :=
  ⟨_, .foldl_after .new [.branch ⟨"note", "urn:store"⟩], rfl⟩

theorem isBuilt_tag : tag.IsBuilt :=
  ⟨_, .foldl_after .new [.branchLeafList ⟨"tag", "urn:store"⟩ (.text "new")], rfl⟩

/-- A tag can be appended to a note below a label, and the note with it to the
label; behind the tag there is no place for a note. -/
theorem join_concatenates_tag :
    crateLabel.IsBuilt ∧ note.IsBuilt ∧ tag.IsBuilt ∧
      (note.join tag >>= fun r => crateLabel.join r) =
        .ok ⟨[.plain ⟨"crate", "urn:store"⟩, labelKey, .plain ⟨"note", "urn:store"⟩, tagKey]⟩ ∧
      (∀ r, tag.join note ≠ .ok r) ∧ tag.join {} = .ok tag ∧
      ∃ s, Succeeds ⟨crateLabel.keys ++ note.keys, none, {}⟩ [.removeLast] s ∧
        (s.call build).1 = .ok crateLabel := by
  obtain ⟨-, hassoc, -, -, hundone⟩ :=
    join_concatenates isBuilt_crateLabel isBuilt_note isBuilt_tag
  obtain ⟨hconcatenates, -, hunit, -⟩ := join_concatenates isBuilt_tag isBuilt_note isBuilt_tag
  refine ⟨isBuilt_crateLabel, isBuilt_note, isBuilt_tag, (hassoc _).mp rfl, ?_, ?_, ?_⟩
  · intro r hr
    obtain ⟨hopen | hempty, -⟩ := (hconcatenates r).mp hr
    · exact hopen ⟨_, _, rfl⟩
    · cases hempty
  · exact (hunit tag).mpr ⟨by decide, rfl⟩
  · exact (hundone _ _ rfl).2

end Yang.Instance.ResourceId
