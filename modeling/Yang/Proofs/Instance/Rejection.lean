import Yang.Proofs.Instance.Composition

/-!
# Calls that are rejected

A call that fails stops at the first of its steps that fails, and what it did before stays
done. So a call that fails at once leaves the builder as it was; one that fails after it has
taken out the pending key, or has finished it, or has placed some of the keys that it
appends, does not. `Builder.Withstands` tells the two apart by the state before the call.
-/

namespace Yang.Instance

namespace Key

/-- The keys that can be placed one after the other: the first one of a
leaf-list entry is the last of them. Keys behind it are refused. -/
def placeable : List Key → List Key
  | [] => []
  | k :: keys => if k.isTerminal then [k] else k :: placeable keys

theorem placeable_ne_nil {keys : List Key} (h : keys ≠ []) : placeable keys ≠ [] := by
  cases keys with
  | nil => exact absurd rfl h
  | cons k keys =>
      rw [placeable]
      split
      · exact List.cons_ne_nil _ _
      · exact List.cons_ne_nil _ _

end Key

namespace ResourceId.Builder

variable {b b' : Builder} {request : Request} {e : Error}

/-- Of keys that are not all placed, those stay that could be. Appending takes
nothing back when it fails. -/
theorem eq_of_call_forM_place_error {keys : List Key}
    (h : b.call (keys.forM place) = (.error e, b')) :
    keys ≠ [] ∧
      b' = if b.isClosed then b else { b with keys := b.keys ++ Key.placeable keys } := by
  induction keys generalizing b with
  | nil => cases h
  | cons k keys ih =>
      refine ⟨List.cons_ne_nil _ _, ?_⟩
      change b.call (place k >>= fun _ => keys.forM place) = _ at h
      -- Once the first key is placed, it alone says whether the others may follow.
      rw [call_bind, call_place] at h
      cases hclosed : b.isClosed with
      | true =>
          simp only [hclosed, if_true] at h
          exact (Prod.mk.inj h).2.symm
      | false =>
          simp only [hclosed, Bool.false_eq_true, if_false] at h
          obtain ⟨-, rfl⟩ := ih h
          rw [isClosed_concat, Key.placeable]
          cases hterminal : k.isTerminal with
          | true => simp
          | false => simp

/-- The pending key is not finished if it is the key of a leaf-list entry, which
stays, or if no key may follow, and then it is lost. -/
theorem call_settle_eq_error (h : b.call settle = (.error e, b')) :
    b.isPendingTerminal = true ∧ b' = b ∨
      b.isPendingTerminal = false ∧ b.pending ≠ none ∧ b.isClosed = true ∧
        b' = { b with pending := none } := by
  rw [call_settle] at h
  cases hpending : b.pending with
  | none =>
      rw [hpending] at h
      cases h
  | some k =>
      rw [isPendingTerminal, hpending, Option.any_some]
      simp only [hpending, call_place] at h
      cases hterminal : k.isTerminal with
      | true =>
          simp only [hterminal, if_true] at h
          exact .inl ⟨rfl, (Prod.mk.inj h).2.symm⟩
      | false =>
          simp only [hterminal, Bool.false_eq_true, if_false] at h
          split at h
          · rename_i hclosed
            exact .inr ⟨rfl, Option.some_ne_none k, hclosed, (Prod.mk.inj h).2.symm⟩
          · cases h

theorem call_finish_of_closed {k : Key} (hpending : b.pending = some k)
    (hclosed : b.isClosed = true) :
    b.call finish = (.error (.key (.afterLeafList k.text)), { b with pending := none }) := by
  have hplace : isClosed { b with pending := none } = true := hclosed
  rw [call_finish, hpending]
  simp only [call_place, hplace, if_true]

/-- Building fails because the pending key cannot follow, or because there are
too many keys once it is finished. -/
theorem call_build_eq_error (h : b.call build = (.error e, b')) :
    (b.pending ≠ none ∧ b.isClosed = true ∧ b' = { b with pending := none }) ∨
      (b.pending.isSome → b.isClosed = false) ∧ b' = b.settled ∧
        ∃ n bound, e = .limitExceeded .pathDepth n bound := by
  rcases call_bind_eq_error_iff.mp h with h | ⟨_, next, hfinish, h⟩
  · left
    cases hpending : b.pending with
    | none =>
        rw [call_finish, hpending] at h
        cases h
    | some k =>
        cases hclosed : b.isClosed with
        | true =>
            rw [call_finish_of_closed hpending hclosed] at h
            exact ⟨Option.some_ne_none k, rfl, (Prod.mk.inj h).2.symm⟩
        | false =>
            have hplace : isClosed { b with pending := none } = false := hclosed
            simp only [call_finish, hpending, call_place, hplace, Bool.false_eq_true,
              if_false] at h
            cases h
  · right
    obtain ⟨hopen, rfl⟩ := call_finish_eq_ok_iff.mp hfinish
    rw [call_bind, call_get] at h
    rcases call_bind_eq_error_iff.mp h with h | ⟨_, _, -, h⟩
    · rw [call_lift] at h
      obtain ⟨hcheck, rfl⟩ := Prod.mk.inj h
      exact ⟨hopen, rfl, _, _, (Limits.check_eq_error_iff.mp hcheck).2⟩
    · cases h

def Request.appended : Request → List Key
  | .append r => r.keys
  | .appendKeys keys => keys
  | _ => []

/-- What a builder is like that a call of a kind leaves as it is when it is
rejected. For some calls every builder is like this. -/
def Withstands (b : Builder) : Request → Prop
  | .branch _ | .branchLeafList _ _ => b.isPendingTerminal = true
  | .append _ | .appendKeys _ =>
    b.isPendingTerminal = true ∨ b.pending = none ∧ b.isClosed = true
  | .build => b.pending = none
  | .limit _ | .keyLeaf _ | .removeLast => True

/-- What a call that was rejected can leave behind. Only the pending key and the
keys to append are concerned; finished keys always stay. -/
inductive Remains (b : Builder) (request : Request) : Builder → Prop
  | same (withstands : b.Withstands request) : Remains b request b
  /-- The pending key cannot follow the finished ones and is lost. -/
  | dropped (disturbed : ¬b.Withstands request) (closed : b.isClosed = true)
      (pending : b.pending ≠ none) : Remains b request { b with pending := none }
  /-- The pending key is finished, and of the keys to append those stay that were placed. -/
  | halfway (disturbed : ¬b.Withstands request) (hopen : b.isClosed = false)
      (work : b.pending ≠ none ∨ request.appended ≠ []) :
      Remains b request
        { b.settled with keys := b.settled.keys ++ Key.placeable request.appended }

theorem remains_of_settle_begin {k : Key}
    (kind : b.Withstands request ↔ b.isPendingTerminal = true)
    (h : b.call (settle >>= fun _ => modify fun b => { b with pending := some k }) =
      (.error e, b')) : Remains b request b' := by
  rcases call_bind_eq_error_iff.mp h with h | ⟨_, next, -, h⟩
  · rcases call_settle_eq_error h with ⟨hterminal, rfl⟩ | ⟨hterminal, hpending, hclosed, rfl⟩
    · exact .same (kind.mpr hterminal)
    · exact .dropped (by simp [kind, hterminal]) hclosed hpending
  · cases h

theorem remains_of_appendKeys {keys : List Key} (happended : request.appended = keys)
    (kind : b.Withstands request ↔
      b.isPendingTerminal = true ∨ b.pending = none ∧ b.isClosed = true)
    (h : b.call (appendKeys keys) = (.error e, b')) : Remains b request b' := by
  rcases call_bind_eq_error_iff.mp h with h | ⟨_, next, hsettle, hplace⟩
  · rcases call_settle_eq_error h with ⟨hterminal, rfl⟩ | ⟨hterminal, hpending, hclosed, rfl⟩
    · exact .same (kind.mpr (.inl hterminal))
    · exact .dropped (by simp [kind, hterminal, hpending]) hclosed hpending
  · obtain ⟨hsettles, rfl⟩ := call_settle_eq_ok_iff.mp hsettle
    obtain ⟨hne, rfl⟩ := eq_of_call_forM_place_error hplace
    cases hpending : b.pending with
    | none =>
        rw [settled_of_pending b hpending]
        have hterminal : b.isPendingTerminal = false := by
          rw [isPendingTerminal, hpending, Option.any_none]
        cases hclosed : b.isClosed with
        | true => exact .same (kind.mpr (.inr ⟨hpending, hclosed⟩))
        | false =>
            have hhalfway : Remains b request
                { b.settled with keys := b.settled.keys ++ Key.placeable request.appended } :=
              .halfway (by simp [kind, hterminal, hclosed]) hclosed (.inr (happended ▸ hne))
            rwa [settled_of_pending b hpending, happended] at hhalfway
    | some k =>
        obtain ⟨hterminal, hopen⟩ := hsettles k hpending
        have hsettled : b.settled.isClosed = false := by
          rw [settled, hpending, Option.toList_some, isClosed_concat, hterminal]
        have hdisturbed : ¬b.Withstands request := by
          simp [kind, isPendingTerminal, hpending, hterminal]
        rw [hsettled, ← happended]
        exact .halfway hdisturbed hopen (.inl (by simp [hpending]))

theorem remains_of_build (h : b.call build = (.error e, b')) : Remains b .build b' := by
  rcases call_build_eq_error h with ⟨hpending, hclosed, rfl⟩ | ⟨hopen, rfl, -⟩
  · exact .dropped hpending hclosed hpending
  · cases hpending : b.pending with
    | none =>
        rw [settled_of_pending b hpending]
        exact .same hpending
    | some k =>
        have hhalfway : Remains b .build
            { b.settled with keys := b.settled.keys ++ Key.placeable Request.build.appended } :=
          .halfway (by simp [Withstands, hpending]) (hopen (by simp [hpending]))
            (.inl (by simp [hpending]))
        simpa [Request.appended, Key.placeable] using hhalfway

theorem remains_of_rejected (h : b.call request.perform = (.error e, b')) :
    Remains b request b' := by
  cases request with
  | limit limits => cases h
  | branch id => exact remains_of_settle_begin Iff.rfl h
  | keyLeaf leaf =>
      rw [Request.perform, call_addKeyLeaf] at h
      split at h
      · split at h
        · cases h
        · obtain ⟨-, rfl⟩ := Prod.mk.inj h
          exact .same trivial
      · cases h
      all_goals
        obtain ⟨-, rfl⟩ := Prod.mk.inj h
        exact .same trivial
  | branchLeafList id value =>
      rw [Request.perform, call_branchLeafList] at h
      split at h
      · rename_i hterminal
        obtain ⟨-, rfl⟩ := Prod.mk.inj h
        exact .same hterminal
      · exact remains_of_settle_begin Iff.rfl h
  | append r => exact remains_of_appendKeys rfl Iff.rfl h
  | appendKeys keys => exact remains_of_appendKeys rfl Iff.rfl h
  | removeLast =>
      rw [Request.perform, call_removeLast] at h
      split at h
      · obtain ⟨-, rfl⟩ := Prod.mk.inj h
        exact .same trivial
      · cases h
  | build =>
      rcases call_bind_eq_error_iff.mp h with h | ⟨_, next, -, h⟩
      · exact remains_of_build h
      · cases h

/-- A rejected call leaves a builder as it was exactly if the builder withstands
calls of its kind. Otherwise the pending key is lost if the finished keys take
no more, and if they do, it is finished and the keys to append are placed up to
the first one of a leaf-list entry. -/
theorem after_rejected_call (h : b.call request.perform = (.error e, b')) :
    (b' = b ↔ b.Withstands request) ∧
      (¬b.Withstands request → b' =
        if b.isClosed then { b with pending := none }
        else { b.settled with
          keys := b.settled.keys ++ Key.placeable request.appended }) := by
  cases remains_of_rejected h with
  | same withstands =>
      exact ⟨iff_of_true rfl withstands, fun disturbed => absurd withstands disturbed⟩
  | dropped disturbed closed pending =>
      refine ⟨iff_of_false ?_ disturbed, fun _ => ?_⟩
      · intro heq
        exact pending (congrArg Builder.pending heq).symm
      · rw [if_pos closed]
  | halfway disturbed hopen work =>
      refine ⟨iff_of_false ?_ disturbed, fun _ => ?_⟩
      · intro heq
        have hpending : b.pending = none := (congrArg Builder.pending heq).symm
        have hplaced : Key.placeable request.appended = [] := by
          have hkeys := congrArg Builder.keys heq
          rwa [settled_of_pending b hpending, List.append_right_eq_self] at hkeys
        rcases work with hsome | hne
        · exact hsome hpending
        · exact Key.placeable_ne_nil hne hplaced
      · rw [hopen, if_neg Bool.false_ne_true]

def tagKey : Key := .leafListEntry ⟨"tag", "urn:store"⟩ (.text "new")

def labelKey : Key := .plain ⟨"label", "urn:store"⟩

def labelRequests : List Request :=
  [.branchLeafList ⟨"tag", "urn:store"⟩ (.text "new"), .build, .branch ⟨"label", "urn:store"⟩]

/-- A label is pending behind the finished key of a tag. -/
def labelBehindTag : Builder := labelRequests.foldl after {}

/-- A crate is pending where no key at all is allowed. -/
def crateAtLimit : Builder :=
  [.limit { pathDepth := 0 }, .branch ⟨"crate", "urn:store"⟩].foldl after {}

theorem Reachable.foldl_after (reachable : b.Reachable) (requests : List Request) :
    (requests.foldl after b).Reachable := by
  induction requests generalizing b with
  | nil => exact reachable
  | cons request rest ih => exact ih (reachable.call request)

/-- A pending label is lost with the branch point that cannot follow it, a tag
stays that was appended before the label behind it was refused, and a crate is
finished by the building that finds one key too many. -/
theorem disturbed_by_rejected_calls :
    (labelBehindTag.Reachable ∧ labelBehindTag.pending = some labelKey ∧
      labelBehindTag.call (branch ⟨"crate", "urn:store"⟩) =
        (.error (.key (.afterLeafList "label")), { labelBehindTag with pending := none })) ∧
    call {} (appendKeys [tagKey, labelKey]) =
      (.error (.key (.afterLeafList "label")), { keys := [tagKey] }) ∧
    crateAtLimit.Reachable ∧ crateAtLimit.pending.isSome = true ∧
      crateAtLimit.call build =
        (.error (.limitExceeded .pathDepth 1 0), crateAtLimit.settled) :=
  ⟨⟨.foldl_after .new _, rfl, rfl⟩, rfl, .foldl_after .new _, rfl, rfl⟩

/-- A builder with nothing pending whose last finished key is that of a tag
withstands appending; an empty one does not. -/
theorem after_rejected_call_tag :
    (∃ e, call { keys := [tagKey] } (appendKeys [labelKey]) = (.error e, { keys := [tagKey] })) ∧
      ∃ e b', call {} (appendKeys [tagKey, labelKey]) = (.error e, b') ∧ b' ≠ {} ∧
        b' = { keys := [tagKey] } := by
  have hkept : call { keys := [tagKey] } (Request.perform (.appendKeys [labelKey])) =
      (.error (.key (.afterLeafList "label")),
        ({ keys := [tagKey] } : Builder).after (.appendKeys [labelKey])) := rfl
  have hwithstands : Withstands { keys := [tagKey] } (.appendKeys [labelKey]) := .inr ⟨rfl, rfl⟩
  have hfailed : call {} (Request.perform (.appendKeys [tagKey, labelKey])) =
      (.error (.key (.afterLeafList "label")),
        ({} : Builder).after (.appendKeys [tagKey, labelKey])) := rfl
  have hdisturbed : ¬Withstands {} (.appendKeys [tagKey, labelKey]) := by
    simp [Withstands, isPendingTerminal, isClosed]
  have hsame := (after_rejected_call hkept).1.mpr hwithstands
  obtain ⟨hiff, hleft⟩ := after_rejected_call hfailed
  exact ⟨⟨_, hkept.trans (by rw [hsame])⟩, _, _, hfailed, mt hiff.mp hdisturbed, hleft hdisturbed⟩

end ResourceId.Builder

end Yang.Instance
