import Mathlib.Data.List.Chain
import Yang.Name
import Yang.Proofs.Joined

/-!
# Ids of models

Free text is made into a model id by joining its runs of letters, digits, points and hyphens with
underscores. An id that is made of text is legal and keeps its runs, so it is made of itself, and
it tells the runs of the text but nothing else of it.
-/

namespace Yang.Name

/-- The maximal runs of characters that are kept, in order, and what stands
around them. The relation says what runs are without saying how they are found. -/
inductive Runs : List Char → List (List Char) → Prop
  | none {gap : List Char} (foreign : ∀ c ∈ gap, isKept c = false) : Runs gap []
  | run {gap run rest : List Char} {runs : List (List Char)}
      (foreign : ∀ c ∈ gap, isKept c = false) (kept : ∀ c ∈ run, isKept c = true) (ne : run ≠ [])
      (maximal : ∀ c ∈ rest.head?, isKept c = false) (others : Runs rest runs) :
      Runs (gap ++ (run ++ rest)) (run :: runs)

section Tokens

variable {c : Char} {cs gap run rest : List Char} {runs : List (List Char)}

/-- A text falls apart at every character that is not kept. What stands on both
sides has its runs by itself. -/
theorem tokens_append_cons (hc : isKept c = false) (x y : List Char) :
    tokens (x ++ c :: y) = tokens x ++ tokens y := by
  rw [tokens, List.splitOnP_append_cons x y (by simp [hc]), List.filter_append]
  rfl

theorem tokens_gap (foreign : ∀ c ∈ gap, isKept c = false) (cs : List Char) :
    tokens (gap ++ cs) = tokens cs := by
  induction gap with
  | nil => rfl
  | cons c gap ih =>
      obtain ⟨hc, hgap⟩ := List.forall_mem_cons.mp foreign
      exact (tokens_append_cons hc [] (gap ++ cs)).trans (ih hgap)

theorem tokens_of_kept (kept : ∀ c ∈ run, isKept c = true) (ne : run ≠ []) :
    tokens run = [run] := by
  rw [tokens, List.splitOnP_eq_singleton fun c hc => by simp [kept c hc]]
  simp [ne]

theorem tokens_run (kept : ∀ c ∈ run, isKept c = true) (ne : run ≠ [])
    (maximal : ∀ c ∈ rest.head?, isKept c = false) : tokens (run ++ rest) = run :: tokens rest := by
  cases rest with
  | nil =>
      rw [List.append_nil, tokens_of_kept kept ne]
      rfl
  | cons c rest =>
      have hc : isKept c = false := maximal c rfl
      have hgap : tokens ([c] ++ rest) = tokens rest := tokens_gap (by simp [hc]) rest
      rw [tokens_append_cons hc, tokens_of_kept kept ne, ← hgap]
      rfl

theorem Runs.tokens_eq (h : Runs cs runs) : tokens cs = runs := by
  induction h with
  | @none gap foreign =>
      have hgap := tokens_gap foreign []
      rwa [List.append_nil] at hgap
  | run foreign kept ne maximal _ ih => rw [tokens_gap foreign, tokens_run kept ne maximal, ih]

theorem Runs.unique {others : List (List Char)} (h : Runs cs runs) (hothers : Runs cs others) :
    runs = others :=
  h.tokens_eq.symm.trans hothers.tokens_eq

/-- A character more in front makes the first gap longer, or the first run, or
is a run. So every text has runs, by induction on its characters. -/
theorem Runs.exists_cons (h : Runs cs runs) (c : Char) : ∃ runs', Runs (c :: cs) runs' := by
  cases hc : isKept c with
  | false =>
      cases h with
      | none foreign =>
          have hgap : ∀ d ∈ c :: cs, isKept d = false := List.forall_mem_cons.mpr ⟨hc, foreign⟩
          exact ⟨[], .none hgap⟩
      | @run gap _ _ _ foreign kept ne maximal others =>
          have hgap : ∀ d ∈ c :: gap, isKept d = false := List.forall_mem_cons.mpr ⟨hc, foreign⟩
          exact ⟨_, .run hgap kept ne maximal others⟩
  | true =>
      by_cases hnext : ∀ d ∈ cs.head?, isKept d = false
      · have hrun : Runs ([] ++ ([c] ++ cs)) ([c] :: runs) :=
          .run (List.forall_mem_nil _) (by simp [hc]) (List.cons_ne_nil _ _) hnext h
        exact ⟨_, hrun⟩
      · cases h with
        | none foreign => exact absurd (fun d hd => foreign d (List.mem_of_mem_head? hd)) hnext
        | @run gap run rest runs foreign kept ne maximal others =>
            cases gap with
            | nil =>
                have hrun : Runs ([] ++ (c :: run ++ rest)) ((c :: run) :: runs) :=
                  .run (List.forall_mem_nil _) (List.forall_mem_cons.mpr ⟨hc, kept⟩)
                    (List.cons_ne_nil _ _) maximal others
                exact ⟨_, hrun⟩
            | cons d gap =>
                have hd : isKept d = false := foreign d (List.mem_cons_self ..)
                exact absurd (by simp [hd]) hnext

/-- Every text has runs, and as they are unique it has no others. -/
theorem exists_runs (cs : List Char) : ∃ runs, Runs cs runs := by
  induction cs with
  | nil => exact ⟨[], .none (List.forall_mem_nil _)⟩
  | cons c cs ih =>
      obtain ⟨runs, hruns⟩ := ih
      exact hruns.exists_cons c

theorem runs_iff : Runs cs runs ↔ tokens cs = runs := by
  constructor
  · exact Runs.tokens_eq
  · rintro rfl
    obtain ⟨runs, hruns⟩ := exists_runs cs
    rwa [hruns.tokens_eq]

end Tokens

section Joining

variable {c : Char} {cs run : List Char} {runs : List (List Char)}

theorem isPart_iff : isPart c = true ↔ isKept c = true ∨ c = '_' := by
  simp only [isPart, isKept, Bool.or_eq_true, beq_iff_eq, or_assoc, or_comm, or_left_comm]

theorem isKept_of_isAlphanum (h : c.isAlphanum = true) : isKept c = true := by
  rw [isKept, h]
  rfl

theorem ne_underscore_of_isKept (h : isKept c = true) : c ≠ '_' := by
  rintro rfl
  cases h

theorem Runs.forall_ne_nil (h : Runs cs runs) : ∀ run ∈ runs, run ≠ [] := by
  induction h with
  | none _ => exact List.forall_mem_nil _
  | run _ _ ne _ _ ih => exact List.forall_mem_cons.mpr ⟨ne, ih⟩

theorem Runs.forall_kept (h : Runs cs runs) : ∀ run ∈ runs, ∀ c ∈ run, isKept c = true := by
  induction h with
  | none _ => exact List.forall_mem_nil _
  | run _ kept _ _ _ ih => exact List.forall_mem_cons.mpr ⟨kept, ih⟩

theorem Runs.exists_mem (h : Runs cs runs) (hmem : c ∈ cs) (hc : isKept c = true) :
    ∃ run ∈ runs, c ∈ run := by
  have hgap : ∀ {gap : List Char}, (∀ d ∈ gap, isKept d = false) → c ∉ gap := fun foreign hin => by
    rw [foreign c hin] at hc
    cases hc
  induction h with
  | none foreign => exact absurd hmem (hgap foreign)
  | run foreign _ _ _ _ ih =>
      rw [List.mem_append, List.mem_append] at hmem
      rcases hmem with hin | hin | hin
      · exact absurd hin (hgap foreign)
      · exact ⟨_, List.mem_cons_self .., hin⟩
      · obtain ⟨other, hother, hin⟩ := ih hin
        exact ⟨other, List.mem_cons_of_mem _ hother, hin⟩

theorem Runs.mem_of_mem (h : Runs cs runs) (hrun : run ∈ runs) (hc : c ∈ run) : c ∈ cs := by
  induction h with
  | none _ => cases hrun
  | run _ _ _ _ _ ih =>
      rw [List.mem_append, List.mem_append]
      rcases List.mem_cons.mp hrun with rfl | hrest
      · exact .inr (.inl hc)
      · exact .inr (.inr (ih hrest))

/-- Runs that are joined by underscores are the runs of what they are joined to.
Joining a second time therefore changes nothing. -/
theorem Runs.tokens_intercalate (h : Runs cs runs) : tokens (['_'].intercalate runs) = runs :=
  Text.filter_splitOnP_intercalate rfl h.forall_ne_nil fun run hrun c hc => by
    rw [h.forall_kept run hrun c hc]
    rfl

/-- Of two neighbours one at least is no underscore, and neither end is one. In
the ids that are given back underscores only separate. -/
structure Spaced (cs : List Char) : Prop where
  apart : cs.IsChain fun a b => ¬(a = '_' ∧ b = '_')
  front : ∀ c ∈ cs.head?, c ≠ '_'
  back : ∀ c ∈ cs.getLast?, c ≠ '_'

theorem isChain_of_forall_ne (h : ∀ c ∈ cs, c ≠ '_') :
    cs.IsChain fun a b => ¬(a = '_' ∧ b = '_') := by
  rw [List.isChain_iff_forall_rel_of_append_cons_cons]
  rintro a b before after rfl ⟨rfl, -⟩
  exact h '_' (by simp) rfl

theorem isChain_intercalate (nonempty : ∀ run ∈ runs, run ≠ [])
    (h : ∀ run ∈ runs, ∀ c ∈ run, c ≠ '_') :
    (['_'].intercalate runs).IsChain fun a b => ¬(a = '_' ∧ b = '_') := by
  induction runs with
  | nil => exact isChain_of_forall_ne (List.forall_mem_nil _)
  | cons run rest ih =>
      obtain ⟨hrun, hrest⟩ := List.forall_mem_cons.mp h
      obtain ⟨-, hnes⟩ := List.forall_mem_cons.mp nonempty
      cases rest with
      | nil =>
          rw [List.intercalate_singleton]
          exact isChain_of_forall_ne hrun
      | cons next others =>
          rw [List.intercalate_cons_cons, List.append_assoc]
          have hfront := (Text.forall_mem_ends_intercalate ['_'] hnes hrest).1
          have hback : (['_'] ++ ['_'].intercalate (next :: others)).IsChain
              fun a b => ¬(a = '_' ∧ b = '_') :=
            (ih hnes hrest).cons fun c hc heq => hfront c hc heq.2
          exact (isChain_of_forall_ne hrun).append hback
            fun c hc _ _ heq => hrun c (List.mem_of_getLast? hc) heq.1

theorem Runs.spaced (h : Runs cs runs) : Spaced (['_'].intercalate runs) := by
  have hne : ∀ run ∈ runs, ∀ c ∈ run, c ≠ '_' := fun run hrun c hc =>
    ne_underscore_of_isKept (h.forall_kept run hrun c hc)
  obtain ⟨front, back⟩ := Text.forall_mem_ends_intercalate ['_'] h.forall_ne_nil hne
  exact ⟨isChain_intercalate h.forall_ne_nil hne, front, back⟩

end Joining

section Normalizing

variable {s t id : String} {runs : List (List Char)}

theorem joined_eq (h : Runs s.toList runs) : joined s = String.ofList (['_'].intercalate runs) := by
  rw [joined, h.tokens_eq]

/-- Joined runs are an id as soon as the text has a letter or digit. Points and
dashes alone are kept but make no id. -/
theorem isModelId_joined_iff :
    isModelId (joined s) = true ↔ ∃ c ∈ s.toList, c.isAlphanum = true := by
  obtain ⟨runs, hruns⟩ := exists_runs s.toList
  have hpart : ∀ c ∈ ['_'].intercalate runs, isPart c = true := by
    intro c hc
    rw [isPart_iff]
    rcases Text.mem_intercalate_iff.mp hc with ⟨run, hrun, hc⟩ | ⟨hc, -⟩
    · exact .inl (hruns.forall_kept run hrun c hc)
    · exact .inr (List.mem_singleton.mp hc)
  rw [joined_eq hruns, isModelId, String.toList_ofList, List.all_eq_true.mpr hpart, Bool.true_and,
    List.any_eq_true]
  constructor
  · rintro ⟨c, hc, halpha⟩
    rcases Text.mem_intercalate_iff.mp hc with ⟨run, hrun, hc⟩ | ⟨hc, -⟩
    · exact ⟨c, hruns.mem_of_mem hrun hc, halpha⟩
    · rw [List.mem_singleton.mp hc] at halpha
      cases halpha
  · rintro ⟨c, hc, halpha⟩
    have hmem := hruns.exists_mem hc (isKept_of_isAlphanum halpha)
    exact ⟨c, Text.mem_intercalate_iff.mpr (.inl hmem), halpha⟩

theorem normalizeModelId_of_alphanum (h : ∃ c ∈ s.toList, c.isAlphanum = true) :
    normalizeModelId s = .ok (joined s) :=
  if_pos (isModelId_joined_iff.mpr h)

theorem normalizeModelId_of_no_alphanum (h : ¬∃ c ∈ s.toList, c.isAlphanum = true) :
    normalizeModelId s = .error (.model (.badId s)) :=
  if_neg (mt isModelId_joined_iff.mp h)

/-- There is an id if and only if there is a letter or digit, and it is the
joined runs. -/
theorem normalizeModelId_eq_ok_iff :
    normalizeModelId s = .ok id ↔ (∃ c ∈ s.toList, c.isAlphanum = true) ∧ joined s = id := by
  by_cases h : ∃ c ∈ s.toList, c.isAlphanum = true
  · rw [normalizeModelId_of_alphanum h, Except.ok.injEq, and_iff_right h]
  · rw [normalizeModelId_of_no_alphanum h]
    exact ⟨nofun, fun hid => absurd hid.1 h⟩

/-- The runs of joined runs are these, as an underscore is not kept. -/
theorem runs_joined (h : Runs s.toList runs) : Runs (joined s).toList runs := by
  rw [joined_eq h, String.toList_ofList, runs_iff, h.tokens_intercalate]

theorem joined_joined (h : Runs s.toList runs) : joined (joined s) = joined s :=
  (joined_eq (runs_joined h)).trans (joined_eq h).symm

/-- Texts are joined to the same if and only if they have the same runs. What
stands between the runs, and how much of it, leaves no trace. -/
theorem joined_eq_joined_iff (h : Runs s.toList runs) :
    joined s = joined t ↔ Runs t.toList runs := by
  constructor
  · intro heq
    obtain ⟨others, hothers⟩ := exists_runs t.toList
    have hback := runs_joined hothers
    rw [← heq] at hback
    rw [(runs_joined h).unique hback]
    exact hothers
  · intro ht
    rw [joined_eq h, joined_eq ht]

/-- Normalizing is a projection on the ids whose underscores stand alone and
between other characters. It fails if and only if there is no letter or digit,
gives back what it gives, and takes two texts to one id if and only if they have
the same runs of characters that are kept. -/
theorem normalizeModelId_projects (s : String) :
    (normalizeModelId s = .error (.model (.badId s)) ↔ ¬∃ c ∈ s.toList, c.isAlphanum = true) ∧
    ((∃ id, normalizeModelId s = .ok id ∧ isModelId id = true ∧ Spaced id.toList ∧
        normalizeModelId id = .ok id) ↔ ∃ c ∈ s.toList, c.isAlphanum = true) ∧
    (∃! runs, Runs s.toList runs) ∧
    ∀ t, (∃ id, normalizeModelId s = .ok id ∧ normalizeModelId t = .ok id) ↔
      (∃ c ∈ s.toList, c.isAlphanum = true) ∧ ∃ runs, Runs s.toList runs ∧ Runs t.toList runs := by
  obtain ⟨runs, hruns⟩ := exists_runs s.toList
  refine ⟨⟨fun herror halpha => ?_, normalizeModelId_of_no_alphanum⟩, ⟨?_, fun halpha => ?_⟩,
    ⟨runs, hruns, fun others hothers => hothers.unique hruns⟩, fun t => ⟨?_, ?_⟩⟩
  · rw [normalizeModelId_of_alphanum halpha] at herror
    cases herror
  · rintro ⟨id, hid, -⟩
    exact (normalizeModelId_eq_ok_iff.mp hid).1
  · have hlegal : isModelId (joined s) = true := isModelId_joined_iff.mpr halpha
    have hspaced : Spaced (joined s).toList := by
      rw [joined_eq hruns, String.toList_ofList]
      exact hruns.spaced
    have hfixed : normalizeModelId (joined s) = .ok (joined s) := by
      rw [normalizeModelId, joined_joined hruns, if_pos hlegal]
    exact ⟨joined s, normalizeModelId_of_alphanum halpha, hlegal, hspaced, hfixed⟩
  · rintro ⟨id, hs, ht⟩
    obtain ⟨halpha, rfl⟩ := normalizeModelId_eq_ok_iff.mp hs
    obtain ⟨-, hsame⟩ := normalizeModelId_eq_ok_iff.mp ht
    exact ⟨halpha, runs, hruns, (joined_eq_joined_iff hruns).mp hsame.symm⟩
  · rintro ⟨halpha, others, hs, ht⟩
    have hsame : joined s = joined t := (joined_eq_joined_iff hs).mpr ht
    refine ⟨joined s, normalizeModelId_of_alphanum halpha, ?_⟩
    rw [normalizeModelId_eq_ok_iff, ← isModelId_joined_iff, ← hsame, isModelId_joined_iff]
    exact ⟨halpha, rfl⟩

/-- The runs keep points and hyphens, and everything else between them becomes
one underscore. -/
example : normalizeModelId "[] onos-yang  __runtime" = .ok "onos-yang_runtime" := by decide

end Normalizing

end Yang.Name
