import Mathlib.Data.List.Basic
import Yang.Instance.ResourceId
import Yang.Proofs.Success

/-!
# What the calls of a builder do

A call of a builder yields a result and the next state in any case. A call that is put
together from others stops at the first of them that fails, with the state that this one has
left behind. The lemmas here say once what each call does, also when it fails, so that no
later proof has to run its steps.
-/

namespace Yang.Instance.ResourceId.Builder

section Steps

variable {α β : Type} (b : Builder)

@[simp] theorem call_pure (a : α) : b.call (pure a) = (.ok a, b) := rfl

@[simp] theorem call_throw (e : Error) : b.call (throw e : Call α) = (.error e, b) := rfl

@[simp] theorem call_get : b.call get = (.ok b, b) := rfl

@[simp] theorem call_set (b' : Builder) : b.call (set b') = (.ok (), b') := rfl

@[simp] theorem call_modify (f : Builder → Builder) : b.call (modify f) = (.ok (), f b) := rfl

@[simp] theorem call_lift (x : Except Error α) : b.call (liftM x) = (x, b) := by
  cases x with
  | error e => rfl
  | ok a => rfl

/-- The second call starts from the state that the first one has left, if that
succeeds. -/
theorem call_bind (c : Call α) (f : α → Call β) :
    b.call (c >>= f) =
      match b.call c with
      | (.ok a, b') => b'.call (f a)
      | (.error e, b') => (.error e, b') := by
  rw [call, run_bind_eq, ← call]
  obtain ⟨result, b'⟩ := b.call c
  cases result <;> rfl

end Steps

section Calls

variable (b : Builder)

/-- No key may follow the finished ones. A builder in this state can still begin
a key, which is noticed only when the key is finished. -/
def isClosed : Bool := b.keys.getLast?.any Key.isTerminal

@[simp] theorem isClosed_concat (keys : List Key) (k : Key) (pending : Option Key)
    (limits : Limits) :
    isClosed { keys := keys ++ [k], pending := pending, limits := limits } = k.isTerminal := by
  rw [isClosed, List.getLast?_concat, Option.any_some]

def settled : Builder := { b with keys := b.keys ++ b.pending.toList, pending := none }

theorem settled_of_pending (h : b.pending = none) : b.settled = b := by
  rw [settled, h, Option.toList_none, List.append_nil, ← h]

theorem call_place (k : Key) :
    b.call (place k) =
      if b.isClosed then (.error (.key (.afterLeafList k.text)), b)
      else (.ok (), { b with keys := b.keys ++ [k] }) := by
  simp only [place, call_bind, call_get]
  rw [isClosed]
  split
  · simp
  · simp

theorem call_settle :
    b.call settle =
      match b.pending with
      | none => (.ok (), b)
      | some k =>
        if k.isTerminal then (.error (.key .leafListIsLast), b)
        else { b with pending := none }.call (place k) := by
  simp only [settle, call_bind, call_get]
  cases b.pending with
  | none => simp
  | some k => cases k <;> simp [call_bind, Key.isTerminal]

theorem call_finish :
    b.call finish =
      match b.pending with
      | none => (.ok (), b)
      | some k => { b with pending := none }.call (place k) := by
  simp only [finish, call_bind, call_get]
  cases b.pending with
  | none => simp
  | some k => simp [call_bind]

theorem call_removeLast :
    b.call removeLast =
      if b.keys.isEmpty then (.error (.key .nothingToRemove), b)
      else (.ok (), { b with keys := b.keys.dropLast }) := by
  simp only [removeLast, call_bind, call_get]
  split <;> simp

theorem call_addKeyLeaf (leaf : KeyLeaf) :
    b.call (addKeyLeaf leaf) =
      match b.pending with
      | some (.listEntry id leaves) =>
        match b.limits.check .keyLeaves (leaves.length + 1) with
        | .ok () => (.ok (), { b with pending := some (.listEntry id (leaves ++ [leaf])) })
        | .error e => (.error e, b)
      | some (.plain id) => (.ok (), { b with pending := some (.listEntry id [leaf]) })
      | some (.leafListEntry _ _) => (.error (.key .leafListTakesNoKeyLeaf), b)
      | none => (.error (.key (.keyLeafWithoutList leaf.id.name)), b) := by
  simp only [addKeyLeaf, call_bind, call_get]
  cases b.pending with
  | none => simp
  | some k =>
      cases k with
      | plain id => simp
      | listEntry id leaves =>
          simp only [call_bind, call_lift]
          cases b.limits.check .keyLeaves (leaves.length + 1) <;> simp
      | leafListEntry id value => simp

theorem call_branchLeafList (id : SchemaId) (value : Value) :
    b.call (branchLeafList id value) =
      if b.isPendingTerminal then (.error (.key .leafListAfterLeafList), b)
      else
        b.call (settle >>= fun _ =>
          modify fun b => { b with pending := some (.leafListEntry id value) }) := by
  rw [branchLeafList, call_bind, call_get]
  cases hterminal : b.isPendingTerminal <;> simp [hterminal]

end Calls

section Success

variable {α β : Type} {b b' : Builder}

/-- Calls in sequence succeed exactly if each of them does. By this and its
companion for failures, calls are taken apart without unfolding them. -/
theorem call_bind_eq_ok_iff {c : Call α} {f : α → Call β} {x : β} :
    b.call (c >>= f) = (.ok x, b') ↔
      ∃ a next, b.call c = (.ok a, next) ∧ next.call (f a) = (.ok x, b') := by
  rw [call_bind]
  cases b.call c with
  | mk result next =>
      cases result with
      | error e => simp
      | ok a => simp

/-- A sequence of calls fails in its first call or, from what this one has left,
in the second. -/
theorem call_bind_eq_error_iff {c : Call α} {f : α → Call β} {e : Error} :
    b.call (c >>= f) = (.error e, b') ↔
      b.call c = (.error e, b') ∨
        ∃ a next, b.call c = (.ok a, next) ∧ next.call (f a) = (.error e, b') := by
  rw [call_bind]
  cases b.call c with
  | mk result next =>
      cases result with
      | error e => simp
      | ok a => simp

theorem call_place_eq_ok_iff {k : Key} :
    b.call (place k) = (.ok (), b') ↔
      b.isClosed = false ∧ { b with keys := b.keys ++ [k] } = b' := by
  rw [call_place]
  cases b.isClosed <;> simp

theorem eq_of_call_forM_place {keys : List Key} (h : b.call (keys.forM place) = (.ok (), b')) :
    b' = { b with keys := b.keys ++ keys } := by
  induction keys generalizing b with
  | nil =>
      obtain ⟨-, rfl⟩ := Prod.mk.inj h
      rw [List.append_nil]
  | cons k keys ih =>
      change b.call (place k >>= fun _ => keys.forM place) = _ at h
      obtain ⟨_, next, hplace, hrest⟩ := call_bind_eq_ok_iff.mp h
      obtain ⟨-, rfl⟩ := call_place_eq_ok_iff.mp hplace
      rw [ih hrest, List.append_assoc, List.singleton_append]

theorem call_settle_eq_ok_iff :
    b.call settle = (.ok (), b') ↔
      (∀ k, b.pending = some k → k.isTerminal = false ∧ b.isClosed = false) ∧ b.settled = b' := by
  rw [call_settle]
  cases hpending : b.pending with
  | none => simp [settled_of_pending b hpending]
  | some k =>
      cases hterminal : k.isTerminal with
      | true => simp [hterminal]
      | false => simp [call_place_eq_ok_iff, settled, hpending, hterminal, isClosed]

theorem call_finish_eq_ok_iff :
    b.call finish = (.ok (), b') ↔
      (b.pending.isSome → b.isClosed = false) ∧ b.settled = b' := by
  rw [call_finish]
  cases hpending : b.pending with
  | none => simp [settled_of_pending b hpending]
  | some k => simp [call_place_eq_ok_iff, settled, hpending, isClosed]

theorem call_build_eq_ok_iff {r : ResourceId} :
    b.call build = (.ok r, b') ↔
      (b.pending.isSome → b.isClosed = false) ∧
        b.settled.keys.length ≤ b.limits.bound .pathDepth ∧ b.settled = b' ∧
        r = ⟨b'.keys⟩ := by
  rw [build, call_bind_eq_ok_iff]
  constructor
  · rintro ⟨_, next, hfinish, h⟩
    obtain ⟨hopen, rfl⟩ := call_finish_eq_ok_iff.mp hfinish
    rw [call_bind, call_get] at h
    obtain ⟨_, _, hcheck, hresult⟩ := call_bind_eq_ok_iff.mp h
    rw [call_lift] at hcheck
    obtain ⟨hdepth, rfl⟩ := Prod.mk.inj hcheck
    obtain ⟨hkeys, rfl⟩ := Prod.mk.inj hresult
    exact ⟨hopen, Limits.check_eq_ok_iff.mp hdepth, rfl, (Except.ok.inj hkeys).symm⟩
  · rintro ⟨hopen, hdepth, rfl, rfl⟩
    refine ⟨(), _, call_finish_eq_ok_iff.mpr ⟨hopen, rfl⟩, ?_⟩
    rw [call_bind, call_get]
    refine call_bind_eq_ok_iff.mpr ⟨(), b.settled, ?_, rfl⟩
    rw [call_lift]
    exact Prod.ext (Limits.check_eq_ok_iff.mpr hdepth) rfl

end Success

/-- A call that may change a builder. -/
inductive Request
  | limit (limits : Limits)
  | branch (id : SchemaId)
  | keyLeaf (leaf : KeyLeaf)
  | branchLeafList (id : SchemaId) (value : Value)
  | append (r : ResourceId)
  | appendKeys (keys : List Key)
  | removeLast
  | build
deriving DecidableEq

def Request.perform : Request → Call Unit
  | .limit limits => modify fun b => { b with limits := limits }
  | .branch id => Builder.branch id
  | .keyLeaf leaf => addKeyLeaf leaf
  | .branchLeafList id value => Builder.branchLeafList id value
  | .append r => Builder.append r
  | .appendKeys keys => Builder.appendKeys keys
  | .removeLast => Builder.removeLast
  | .build => do
    let _ ← Builder.build
    return ()

/-- The builder after a call, also when the call fails. -/
def after (b : Builder) (request : Request) : Builder := (b.call request.perform).2

/-- The builders that calls lead to from a new one, or from one that goes on
from an identifier that was built. Failing calls count, and so do calls after a
build. -/
inductive Reachable : Builder → Prop
  | new : Reachable {}
  | copy {b : Builder} {r : ResourceId} (reachable : b.Reachable)
      (built : (b.call build).1 = .ok r) : Reachable r.builder
  | call {b : Builder} (reachable : b.Reachable) (request : Request) : Reachable (b.after request)

/-- What holds of a builder still holds after the call, be it that this one
fails. This is how invariants of builders are stated. -/
def Keeps {α : Type} (p : Builder → Prop) (c : Call α) : Prop := ∀ b, p b → p (b.call c).2

namespace Keeps

variable {α β : Type} {p : Builder → Prop} {c : Call α}

theorem bind {f : α → Call β} (first : Keeps p c) (second : ∀ a, Keeps p (f a)) :
    Keeps p (c >>= f) := by
  intro b hb
  have hnext := first b hb
  rw [call_bind]
  cases h : b.call c with
  | mk result next =>
      rw [h] at hnext
      cases result with
      | error e => exact hnext
      | ok a => exact second a next hnext

theorem pure (a : α) : Keeps p (Pure.pure a : Call α) := fun _ hb => hb

theorem lift (x : Except Error α) : Keeps p (liftM x : Call α) := by
  intro b hb
  rwa [call_lift]

theorem change {f : Builder → Builder} (h : ∀ b, p b → p (f b)) :
    Keeps p (modify f : Call Unit) := h

theorem forM {γ : Type} {f : γ → Call Unit} (items : List γ) (h : ∀ x, Keeps p (f x)) :
    Keeps p (items.forM f) := by
  induction items with
  | nil => exact pure ()
  | cons x items ih =>
      exact bind (h x) fun _ => ih

section Placing

variable (placing : ∀ b k, p b → b.pending = some k →
  p (Builder.call { b with pending := none } (place k)).2)

include placing

/-- What still holds after the pending key is placed holds after it is settled,
after it is finished and after a build, which do nothing else to the builder. -/
theorem settle : Keeps p settle := by
  intro b hb
  rw [call_settle]
  split
  · exact hb
  · rename_i k hpending
    split
    · exact hb
    · exact placing b k hb hpending

theorem finish : Keeps p finish := by
  intro b hb
  rw [call_finish]
  split
  · exact hb
  · rename_i k hpending
    exact placing b k hb hpending

theorem build : Keeps p build := by
  refine (finish placing).bind fun _ => ?_
  intro b hb
  rw [call_bind, call_get]
  exact (lift _).bind (fun _ => .pure _) b hb

end Placing

end Keeps

end Yang.Instance.ResourceId.Builder
