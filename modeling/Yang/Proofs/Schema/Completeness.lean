import Yang.Proofs.Schema.Resolution

/-!
# Which paths are resolved

At every node a walk takes the first entry that its segment matches, and it does not come
back to try a later one. So it finds its way along a chain exactly if each entry of the
chain is the first match of its context: `Tree.OpenChain`. A chain on which some entry
comes after another match is `Tree.Hidden`, and a path is left unresolved only if every
chain that it could mean is hidden.
-/

namespace Yang.Schema

namespace Tree

variable {t : Tree} {members : Members}

theorem mem_entries_iff {i : NodeId} {e : ContextEntry} :
    e ∈ t.entries i ↔ ∃ id, (id, e) ∈ t.context i := by
  simp [entries]

section Walk

/-- An entry is the first one of a context that a segment matches. The walk
takes this entry and never comes back. -/
def Foremost (t : Tree) (segment : String) (i : NodeId) (e : ContextEntry) : Prop :=
  t.Matches segment e ∧
    ∃ before after, t.entries i = before ++ e :: after ∧ ∀ e' ∈ before, ¬t.Matches segment e'

/-- Segments lead from a node along entries, each of which is the first match.
It is the chain that the walk follows, told without the walk. -/
inductive OpenChain (t : Tree) : NodeId → List String → List ContextEntry → Prop
  | nil (i : NodeId) : OpenChain t i [] []
  | cons {i : NodeId} {segment : String} {segments : List String} {e : ContextEntry}
      {es : List ContextEntry} (foremost : t.Foremost segment i e)
      (rest : OpenChain t e.node segments es) : OpenChain t i (segment :: segments) (e :: es)

/-- On a way along entries some entry comes after another one of its context
that the segment matches too. The walk takes that one and misses the way. -/
inductive Hidden (t : Tree) : NodeId → List String → List ContextEntry → Prop
  | here {i : NodeId} {segment : String} {segments : List String} {e e' : ContextEntry}
      {es before after : List ContextEntry} (hentries : t.entries i = before ++ e :: after)
      (he' : e' ∈ before) (hmatch : t.Matches segment e') :
      Hidden t i (segment :: segments) (e :: es)
  | later {i : NodeId} {segment : String} {segments : List String} {e : ContextEntry}
      {es : List ContextEntry} (rest : Hidden t e.node segments es) :
      Hidden t i (segment :: segments) (e :: es)

theorem Rooted.find?_eq_some_iff (h : t.Rooted) {i : NodeId} {segment : String}
    {e : ContextEntry} :
    (t.entries i).find? (t.matchesEntry segment) = some e ↔ t.Foremost segment i e := by
  rw [List.find?_eq_some_iff_append, h.matchesEntry_iff]
  refine and_congr_right fun _ => exists_congr fun before => exists_congr fun after =>
    and_congr_right fun _ => forall₂_congr fun e' _ => ?_
  rw [Bool.not_eq_true', ← Bool.not_eq_true, h.matchesEntry_iff]

theorem Rooted.step?_of_foremost (h : t.Rooted) {i : NodeId} {segment : String}
    {e : ContextEntry} (hfirst : t.Foremost segment i e) :
    t.step? members i segment = some e := by
  rw [step?, h.find?_eq_some_iff.mpr hfirst]

theorem Rooted.foremost_of_step? (h : t.Rooted) {i : NodeId} {segment : String}
    {e : ContextEntry} (hstep : t.step? (fun _ => []) i segment = some e) :
    t.Foremost segment i e := by
  rw [step?] at hstep
  split at hstep
  · rename_i e' hfound
    obtain rfl := Option.some.inj hstep
    exact h.find?_eq_some_iff.mp hfound
  · split at hstep <;> cases hstep

/-- A walk goes along an open chain to its end. -/
theorem OpenChain.follow? (h : t.Rooted) {i : NodeId} {segments : List String}
    {es : List ContextEntry} (hchain : t.OpenChain i segments es) {info : ContextEntry}
    (hlast : es.getLast? = some info) : t.follow? members i segments = some info := by
  induction hchain with
  | nil i => cases hlast
  | @cons i segment segments e es foremost rest ih =>
      have hstep : t.step? members i segment = some e := h.step?_of_foremost foremost
      rw [Tree.follow?]
      cases rest with
      | nil _ =>
          rw [walk?, hstep]
          exact hlast
      | cons foremost' rest' =>
          rw [walk?, hstep]
          exact ih (by rwa [List.getLast?_cons_cons] at hlast)

/-- Without members a walk goes along an open chain. With them it may leave a
context for what is registered. -/
theorem Rooted.openChain_of_walk? (h : t.Rooted) {i : NodeId} {segment : String}
    {rest : List String} {info : ContextEntry}
    (hwalk : t.walk? (fun _ => []) i segment rest = some info) :
    ∃ es, t.OpenChain i (segment :: rest) es := by
  induction rest generalizing i segment with
  | nil => exact ⟨[info], .cons (h.foremost_of_step? hwalk) (.nil _)⟩
  | cons next rest ih =>
      rw [walk?] at hwalk
      split at hwalk
      · rename_i e hstep
        obtain ⟨es, hchain⟩ := ih hwalk
        exact ⟨e :: es, .cons (h.foremost_of_step? hstep) hchain⟩
      · cases hwalk

/-- Without members segments lead somewhere exactly if there is an open chain. -/
theorem Rooted.exists_follow?_iff (h : t.Rooted) {i : NodeId} {segments : List String}
    (hne : segments ≠ []) :
    (∃ info, t.follow? (fun _ => []) i segments = some info) ↔
      ∃ es, t.OpenChain i segments es := by
  constructor
  · rintro ⟨info, hfollow⟩
    cases segments with
    | nil => exact absurd rfl hne
    | cons segment rest => exact h.openChain_of_walk? hfollow
  · rintro ⟨es, hchain⟩
    cases hchain with
    | nil _ => exact absurd rfl hne
    | @cons _ _ _ e es foremost rest =>
        have hlast := List.getLast?_eq_some_getLast (List.cons_ne_nil e es)
        exact ⟨_, (OpenChain.cons foremost rest).follow? h hlast⟩

/-- A chain is open unless some entry on it is hidden. The induction is on the
chain. -/
theorem Chain.openChain_or_hidden {i : NodeId} {segments : List String} {es : List ContextEntry}
    (h : t.Chain (fun _ => []) i segments es) :
    t.OpenChain i segments es ∨ t.Hidden i segments es := by
  induction h with
  | nil i => exact .inl (.nil i)
  | @cons i segment segments e es leads _ ih =>
      rcases ih with hopen | hhidden
      · cases leads with
        | member _ _ he _ => cases he
        | entry he hmatch =>
            obtain ⟨before, after, hentries⟩ :=
              List.append_of_mem (mem_entries_iff.mpr ⟨_, he⟩)
            by_cases hfirst : ∀ e' ∈ before, ¬t.Matches segment e'
            · exact .inl (.cons ⟨hmatch, before, after, hentries, hfirst⟩ hopen)
            · push Not at hfirst
              obtain ⟨e', he', hmatch'⟩ := hfirst
              exact .inr (.here hentries he' hmatch')
      · exact .inr (.later hhidden)

end Walk

section Resolve

theorem collapse_append (start : List String) (a b : String) :
    collapse (start ++ [a, b]) = start ++ [b] := by
  induction start with
  | nil => rfl
  | cons c start ih =>
      cases start with
      | nil => rfl
      | cons d start =>
          obtain ⟨e, rest, hrest⟩ := List.exists_cons_of_ne_nil (l := start ++ [a, b]) (by simp)
          rw [List.cons_append, hrest] at ih
          rw [List.cons_append, List.cons_append, hrest, collapse, ih]
          rfl

theorem Collapses.eq_collapse {segments collapsed : List String}
    (h : Collapses segments collapsed) : collapsed = collapse segments := by
  cases h with
  | single a => rfl
  | last start a b => exact (collapse_append start a b).symm

/-- A path within the depth limit is followed from the module and then from each
of its imports, until one of them leads somewhere. The first success counts. -/
theorem resolve_eq {limits : Limits} {path : Path} (root : NodeId) (hne : path.segments ≠ [])
    (hdepth : path.segments.length ≤ limits.bound .pathDepth) :
    t.resolve members limits path root =
      match (t.follow? members root path.segments).or
        ((t.imports root).findSome? fun i => t.follow? members i (collapse path.segments)) with
      | some info => .ok info
      | none => .error (.path (.noMatch path.text)) := by
  have hcheck := Limits.check_eq_ok_iff.mpr hdepth
  have hempty : path.segments.isEmpty = false := by simpa using hne
  rw [resolve, hcheck, hempty]
  cases t.follow? members root path.segments with
  | some info => rfl
  | none =>
      rw [Option.none_or]
      cases (t.imports root).findSome? fun i => t.follow? members i (collapse path.segments) <;> rfl

/-- From where a path of a module may be followed, and along which segments:
from the module itself, or from an import with the last segment in place of the
one before it. -/
inductive Attempt (t : Tree) (root : NodeId) (segments : List String) :
    NodeId → List String → Prop
  | direct : Attempt t root segments root segments
  | imported {m : NodeId} {collapsed : List String} (hm : m ∈ t.imports root)
      (collapses : Collapses segments collapsed) : Attempt t root segments m collapsed

theorem Attempt.ne_nil {root start : NodeId} {segments attempted : List String}
    (h : t.Attempt root segments start attempted) (hne : segments ≠ []) : attempted ≠ [] := by
  cases h with
  | direct => exact hne
  | imported _ collapses => cases collapses <;> simp

/-- A path is resolved if one of the attempts leads somewhere. Which of them
counts does not matter for that. -/
theorem exists_resolve_iff {limits : Limits} {path : Path} (root : NodeId)
    (hne : path.segments ≠ []) (hdepth : path.segments.length ≤ limits.bound .pathDepth) :
    (∃ info, t.resolve members limits path root = .ok info) ↔
      ∃ start segments info, t.Attempt root path.segments start segments ∧
        t.follow? members start segments = some info := by
  rw [resolve_eq root hne hdepth]
  constructor
  · rintro ⟨info, h⟩
    split at h
    · rename_i info' hfound
      rcases Option.or_eq_some_iff.mp hfound with hdirect | ⟨-, himport⟩
      · exact ⟨root, _, info', .direct, hdirect⟩
      · obtain ⟨m, hm, hfollow⟩ := List.exists_of_findSome?_eq_some himport
        exact ⟨m, _, info', .imported hm (collapses_collapse hne), hfollow⟩
    · cases h
  · rintro ⟨start, segments, info, attempt, hfollow⟩
    split
    · rename_i info' _
      exact ⟨info', rfl⟩
    · rename_i hnone
      obtain ⟨hdirect, himports⟩ := Option.or_eq_none_iff.mp hnone
      cases attempt with
      | direct => simp [hdirect] at hfollow
      | imported hm collapses =>
          obtain rfl := collapses.eq_collapse
          rw [List.findSome?_eq_none_iff.mp himports start hm] at hfollow
          cases hfollow

/-- Without members a path within the depth limit is resolved exactly if an open
chain leads from the module along its segments, or from an import along the
collapsed ones. If it is left unresolved, every chain that it could mean is
hidden. -/
theorem resolve_complete (reachable : t.Reachable) (limits : Limits) (path : Path)
    (root : NodeId) (hne : path.segments ≠ [])
    (hdepth : path.segments.length ≤ limits.bound .pathDepth) :
    ((∃ info, t.resolve (fun _ => []) limits path root = .ok info) ↔
      ∃ start segments es, t.Attempt root path.segments start segments ∧
        t.OpenChain start segments es) ∧
    ∀ e, t.resolve (fun _ => []) limits path root = .error e →
      e = .path (.noMatch path.text) ∧
        ∀ start segments es, t.Attempt root path.segments start segments →
          t.Chain (fun _ => []) start segments es → t.Hidden start segments es := by
  have rooted := reachable.sound.rooted
  have hresolved : (∃ info, t.resolve (fun _ => []) limits path root = .ok info) ↔
      ∃ start segments es, t.Attempt root path.segments start segments ∧
        t.OpenChain start segments es := by
    rw [exists_resolve_iff root hne hdepth]
    refine exists_congr fun start => exists_congr fun segments => ?_
    rw [exists_and_left, exists_and_left]
    refine and_congr_right fun attempt => ?_
    exact rooted.exists_follow?_iff (attempt.ne_nil hne)
  refine ⟨hresolved, fun e he => ⟨?_, ?_⟩⟩
  · rw [resolve_eq root hne hdepth] at he
    split at he
    · cases he
    · exact (Except.error.inj he).symm
  · intro start segments es attempt hchain
    rcases hchain.openChain_or_hidden with hopen | hhidden
    · obtain ⟨info, hok⟩ := hresolved.mpr ⟨start, segments, es, attempt, hopen⟩
      rw [hok] at he
      cases he
    · exact hhidden

/-- A module with two boxes whose names fold alike. Only the second one has a
lid. -/
def workshop : Tree :=
  [.module "workshop" "urn:workshop" "w" none, .container 0 "tool-box", .container 0 "toolBox",
    .leaf 2 "lid" (.builtin .string none)].foldl Tree.after {}

theorem reachable_workshop : workshop.Reachable := Reachable.empty.foldl_after _

theorem chain_workshop :
    workshop.Chain (fun _ => []) 0 ["toolBox", "lid"] [⟨2, none, false⟩, ⟨3, none, false⟩] := by
  have hbox : workshop.entry? 0 ⟨"toolBox", "urn:workshop"⟩ = some ⟨2, none, false⟩ := by
    decide +kernel
  have hlid : workshop.entry? 2 ⟨"lid", "urn:workshop"⟩ = some ⟨3, none, false⟩ := by
    decide +kernel
  refine .cons (.entry (Tree.mem_context_of_entry? hbox) ⟨⟨.container, ?_, rfl⟩, ?_⟩)
    (.cons (.entry (Tree.mem_context_of_entry? hlid) ⟨⟨.leaf, ?_, rfl⟩, ?_⟩) (.nil _))
  all_goals decide +kernel

theorem resolve_workshop :
    workshop.resolve (fun _ => []) {} ⟨"workshop", none, ["toolBox", "lid"]⟩ 0 =
      .error (.path (.noMatch "workshop/toolBox/lid")) := by
  decide +kernel

/-- A chain along the names of the second box and of its lid does not lead to
the lid. -/
theorem workshop_unresolved :
    workshop.Reachable ∧ workshop.kind? 0 = some .module ∧
      ["toolBox", "lid"].length ≤ ({} : Limits).bound .pathDepth ∧
      workshop.Chain (fun _ => []) 0 ["toolBox", "lid"] [⟨2, none, false⟩, ⟨3, none, false⟩] ∧
      workshop.resolve (fun _ => []) {} ⟨"workshop", none, ["toolBox", "lid"]⟩ 0 =
        .error (.path (.noMatch "workshop/toolBox/lid")) :=
  ⟨reachable_workshop, by decide +kernel, by decide, chain_workshop, resolve_workshop⟩

/-- The first box is found under the name of the second one, which it hides. -/
theorem resolve_complete_workshop :
    (∃ start segments es,
      workshop.Attempt 0 ["toolBox"] start segments ∧ workshop.OpenChain start segments es) ∧
      workshop.Hidden 0 ["toolBox", "lid"] [⟨2, none, false⟩, ⟨3, none, false⟩] := by
  have hbox : workshop.resolve (fun _ => []) {} ⟨"workshop", none, ["toolBox"]⟩ 0 =
      .ok ⟨1, none, false⟩ := by decide +kernel
  have hopen := resolve_complete reachable_workshop {} ⟨"workshop", none, ["toolBox"]⟩ 0
    (List.cons_ne_nil _ _) (by decide)
  have hhidden := resolve_complete reachable_workshop {}
    ⟨"workshop", none, ["toolBox", "lid"]⟩ 0 (List.cons_ne_nil _ _) (by decide)
  exact ⟨hopen.1.mp ⟨_, hbox⟩,
    (hhidden.2 _ resolve_workshop).2 0 _ _ .direct chain_workshop⟩

end Resolve

end Tree

end Yang.Schema
