import Yang.Proofs.Instance.Rejection

/-!
# The order of keys

The order of keys is checked where a key is finished. A branch point therefore goes through
behind the finished key of a leaf-list entry, where the key that it begins can never be
finished: `Builder.Stuck` says that there is such a key, and in a run of calls that all
succeed a branch point of this kind is the only way to one.
-/

namespace Yang.Instance.ResourceId.Builder

variable {b b' : Builder} {request : Request}

def Request.Begins : Request → Prop
  | .branch _ | .branchLeafList _ _ => True
  | _ => False

/-- The call neither begins a key nor finishes one or takes one back. -/
def Request.IsAside : Request → Prop
  | .limit _ | .keyLeaf _ => True
  | _ => False

/-- There is a pending key, and the finished keys take no more, so it cannot be
finished as they stand. -/
def Stuck (b : Builder) : Prop := b.pending ≠ none ∧ b.isClosed = true

/-- Building complains of the order of keys if the pending key cannot be
finished. -/
theorem exists_build_key_error_iff :
    (∃ fault, (b.call build).1 = .error (.key fault)) ↔ b.Stuck := by
  constructor
  · rintro ⟨fault, h⟩
    rcases call_build_eq_error (Prod.ext h rfl) with ⟨hpending, hclosed, -⟩ | ⟨-, -, _, _, h⟩
    · exact ⟨hpending, hclosed⟩
    · cases h
  · rintro ⟨hpending, hclosed⟩
    obtain ⟨k, hk⟩ := Option.ne_none_iff_exists'.mp hpending
    have hfails : b.call build =
        (.error (.key (.afterLeafList k.text)), { b with pending := none }) :=
      call_bind_eq_error_iff.mpr (.inl (call_finish_of_closed hk hclosed))
    exact ⟨_, congrArg Prod.fst hfails⟩

theorem not_stuck_of_pending (h : b.pending = none) : ¬b.Stuck := fun hstuck => hstuck.1 h

/-- A branch point that succeeds begins a key that is stuck if nothing was
pending behind the key of a leaf-list entry. -/
theorem stuck_iff_of_settle_begin {k : Key}
    (h : b.call (settle >>= fun _ => modify fun b => { b with pending := some k }) =
      (.ok (), b')) : b'.Stuck ↔ b.pending = none ∧ b.isClosed = true := by
  obtain ⟨_, next, hsettle, hbegin⟩ := call_bind_eq_ok_iff.mp h
  obtain ⟨hsettles, rfl⟩ := call_settle_eq_ok_iff.mp hsettle
  obtain ⟨-, rfl⟩ := Prod.mk.inj hbegin
  have hsame : isClosed { b.settled with pending := some k } = b.settled.isClosed := rfl
  rw [Stuck, hsame, and_iff_right (Option.some_ne_none k)]
  cases hpending : b.pending with
  | none => rw [settled_of_pending b hpending, and_iff_right rfl]
  | some other =>
      rw [settled, hpending, Option.toList_some, isClosed_concat, (hsettles other hpending).1]
      simp

theorem Orderly.isClosed_dropLast (h : b.Orderly) :
    isClosed { b with keys := b.keys.dropLast } = false := by
  rw [isClosed]
  cases hlast : b.keys.dropLast.getLast? with
  | none => rfl
  | some k => exact h k (List.mem_of_getLast? hlast)

/-- All that a call which succeeds can do about a stuck key: a branch point
begins one, and calls aside leave it. All others would have to finish the key,
or take away what stands before it. -/
theorem stuck_iff_of_call (orderly : b.Orderly)
    (h : b.call request.perform = (.ok (), b')) :
    b'.Stuck ↔ request.Begins ∧ b.pending = none ∧ b.isClosed = true ∨
      request.IsAside ∧ b.Stuck := by
  cases request with
  | limit limits =>
      obtain ⟨-, rfl⟩ := Prod.mk.inj h
      simp [Request.Begins, Request.IsAside, Stuck, isClosed]
  | branch id => simpa [Request.Begins, Request.IsAside] using stuck_iff_of_settle_begin h
  | keyLeaf leaf =>
      obtain ⟨k, hpending, rfl⟩ := call_addKeyLeaf_eq_ok h
      simp [Request.Begins, Request.IsAside, Stuck, isClosed, hpending]
  | branchLeafList id value =>
      rw [Request.perform, call_branchLeafList] at h
      split at h
      · cases h
      · simpa [Request.Begins, Request.IsAside] using stuck_iff_of_settle_begin h
  | append r =>
      obtain rfl := call_appendKeys_eq_ok h
      simpa [Request.Begins, Request.IsAside] using not_stuck_of_pending rfl
  | appendKeys keys =>
      obtain rfl := call_appendKeys_eq_ok h
      simpa [Request.Begins, Request.IsAside] using not_stuck_of_pending rfl
  | removeLast =>
      rw [Request.perform, call_removeLast] at h
      split at h
      · cases h
      · obtain ⟨-, rfl⟩ := Prod.mk.inj h
        simp [Request.Begins, Request.IsAside, Stuck, orderly.isClosed_dropLast]
  | build =>
      obtain ⟨r, next, hbuild, hpure⟩ := call_bind_eq_ok_iff.mp h
      obtain ⟨-, -, rfl, -⟩ := call_build_eq_ok_iff.mp hbuild
      obtain ⟨-, rfl⟩ := Prod.mk.inj hpure
      simpa [Request.Begins, Request.IsAside] using not_stuck_of_pending rfl

/-- Among the calls there is a branch point behind the key of a leaf-list entry,
with nothing pending, and only calls aside come after it. The states in between
are those of the calls before it. -/
def Misplaces (b : Builder) (requests : List Request) : Prop :=
  ∃ before request rest, requests = before ++ request :: rest ∧ request.Begins ∧
    (before.foldl after b).pending = none ∧ (before.foldl after b).isClosed = true ∧
    ∀ other ∈ rest, other.IsAside

theorem not_misplaces_nil : ¬b.Misplaces [] := by
  rintro ⟨before, request, rest, h, -⟩
  cases before <;> cases h

theorem misplaces_cons_iff {requests : List Request} :
    b.Misplaces (request :: requests) ↔
      (request.Begins ∧ b.pending = none ∧ b.isClosed = true ∧
        ∀ other ∈ requests, other.IsAside) ∨ (b.after request).Misplaces requests := by
  constructor
  · rintro ⟨before, begun, rest, hrequests, hbegins, hpending, hclosed, haside⟩
    rcases List.cons_eq_append_iff.mp hrequests with ⟨rfl, hsame⟩ | ⟨before', rfl, rfl⟩
    · obtain ⟨rfl, rfl⟩ := List.cons.inj hsame
      exact .inl ⟨hbegins, hpending, hclosed, haside⟩
    · exact .inr ⟨before', begun, rest, rfl, hbegins, hpending, hclosed, haside⟩
  · rintro (⟨hbegins, hpending, hclosed, haside⟩ |
      ⟨before, begun, rest, rfl, hbegins, hpending, hclosed, haside⟩)
    · exact ⟨[], request, requests, rfl, hbegins, hpending, hclosed, haside⟩
    · exact ⟨request :: before, begun, rest, rfl, hbegins, hpending, hclosed, haside⟩

/-- A key that is stuck after calls that all succeed was so before them and they
are calls aside, or a branch point among them has begun it. The induction is on
the calls. -/
theorem Succeeds.stuck_iff {requests : List Request} (h : Succeeds b requests b')
    (reachable : b.Reachable) :
    b'.Stuck ↔ (b.Stuck ∧ ∀ request ∈ requests, request.IsAside) ∨ b.Misplaces requests := by
  induction h with
  | nil b => simp [not_misplaces_nil]
  | @cons b next b' request rest first others ih =>
      have hnext : b.after request = next := congrArg Prod.snd first
      have hstep := stuck_iff_of_call reachable.orderly first
      -- A key that is stuck in the end was begun by the first call or before it, and then all
      -- others are aside, or one of the others has begun it.
      rw [ih (hnext ▸ reachable.call request), misplaces_cons_iff, hnext, hstep,
        List.forall_mem_cons]
      constructor
      · rintro (⟨⟨hbegins, hpending, hclosed⟩ | ⟨haside, hstuck⟩, hrest⟩ | hmisplaces)
        · exact .inr (.inl ⟨hbegins, hpending, hclosed, hrest⟩)
        · exact .inl ⟨hstuck, haside, hrest⟩
        · exact .inr (.inr hmisplaces)
      · rintro (⟨hstuck, haside, hrest⟩ | ⟨hbegins, hpending, hclosed, hrest⟩ | hmisplaces)
        · exact .inl ⟨.inr ⟨haside, hstuck⟩, hrest⟩
        · exact .inl ⟨.inl ⟨hbegins, hpending, hclosed⟩, hrest⟩
        · exact .inr hmisplaces

def Request.Adds : Request → Prop
  | .limit _ | .removeLast | .build => False
  | _ => True

theorem exists_pending_of_isPendingTerminal (h : b.isPendingTerminal = true) :
    ∃ id value, b.pending = some (.leafListEntry id value) := by
  rw [isPendingTerminal] at h
  cases hpending : b.pending with
  | none => simp [hpending] at h
  | some k =>
      cases k with
      | leafListEntry id value => exact ⟨id, value, rfl⟩
      | _ => simp [hpending, Key.isTerminal] at h

/-- Behind a pending key of a leaf-list entry every call is rejected that adds
something. -/
theorem exists_key_error_of_pending (hterminal : b.isPendingTerminal = true)
    (adds : request.Adds) : ∃ fault, b.call request.perform = (.error (.key fault), b) := by
  obtain ⟨id, value, hpending⟩ := exists_pending_of_isPendingTerminal hterminal
  have hsettle : b.call settle = (.error (.key .leafListIsLast), b) := by
    rw [call_settle, hpending]
    rfl
  cases request with
  | branch id => exact ⟨_, call_bind_eq_error_iff.mpr (.inl hsettle)⟩
  | keyLeaf leaf =>
      refine ⟨.leafListTakesNoKeyLeaf, ?_⟩
      rw [Request.perform, call_addKeyLeaf, hpending]
  | branchLeafList id value =>
      refine ⟨.leafListAfterLeafList, ?_⟩
      rw [Request.perform, call_branchLeafList, if_pos hterminal]
  | append r => exact ⟨_, call_bind_eq_error_iff.mpr (.inl hsettle)⟩
  | appendKeys keys => exact ⟨_, call_bind_eq_error_iff.mpr (.inl hsettle)⟩
  | limit limits => cases adds
  | removeLast => cases adds
  | build => cases adds

/-- Behind a finished key of a leaf-list entry no keys can be appended. -/
theorem exists_key_error_of_closed (idle : b.pending = none) (closed : b.isClosed = true)
    {keys : List Key} (hne : keys ≠ []) :
    ∃ fault, b.call (appendKeys keys) = (.error (.key fault), b) := by
  obtain ⟨k, rest, rfl⟩ := List.exists_cons_of_ne_nil hne
  have hsettle : b.call settle = (.ok (), b) := by
    rw [call_settle, idle]
  have hplace : b.call ((k :: rest).forM place) = (.error (.key (.afterLeafList k.text)), b) := by
    refine call_bind_eq_error_iff.mpr (.inl ?_)
    rw [call_place, if_pos closed]
  exact ⟨_, call_bind_eq_error_iff.mpr (.inr ⟨(), b, hsettle, hplace⟩)⟩

/-- After calls that all succeed, from a builder with nothing pending, building
complains of the order of keys exactly if one of the calls was a branch point
behind the finished key of a leaf-list entry, with nothing pending, and nothing
but key leaves and limits came after it. All other calls that would put a key
behind such an entry are rejected: behind a pending one every call that adds a
key or a key leaf, and behind a finished one every call that appends keys. -/
theorem build_key_error_iff {requests : List Request} (reachable : b.Reachable)
    (idle : b.pending = none) (h : Succeeds b requests b') :
    ((∃ fault, (b'.call build).1 = .error (.key fault)) ↔ b.Misplaces requests) ∧
      (b'.isPendingTerminal = true → ∀ request : Request, request.Adds →
        ∃ fault, b'.call request.perform = (.error (.key fault), b')) ∧
      (b'.pending = none → b'.isClosed = true → ∀ keys ≠ [],
        ∃ fault, b'.call (appendKeys keys) = (.error (.key fault), b')) := by
  refine ⟨?_, ?_, ?_⟩
  · rw [exists_build_key_error_iff, h.stuck_iff reachable]
    simp [not_stuck_of_pending idle]
  · exact fun hterminal request adds => exists_key_error_of_pending hterminal adds
  · exact fun hpending hclosed keys hne => exists_key_error_of_closed hpending hclosed hne

/-- All of these calls succeed, and only the building after them fails. -/
theorem label_not_built :
    Reachable {} ∧ Succeeds {} labelRequests labelBehindTag ∧
      (labelBehindTag.call build).1 = .error (.key (.afterLeafList "label")) :=
  ⟨.new, .cons rfl (.cons rfl (.cons rfl (.nil _))), rfl⟩

/-- It was the branch point that misplaced the label: without it the tag is
built. -/
theorem build_key_error_iff_label :
    Succeeds {} labelRequests labelBehindTag ∧ Misplaces {} labelRequests ∧
      ¬Misplaces {} (labelRequests.take 2) ∧
      ¬∃ fault, ((labelRequests.take 2).foldl after {} |>.call build).1 = .error (.key fault) := by
  have succeeds : Succeeds {} labelRequests labelBehindTag :=
    .cons rfl (.cons rfl (.cons rfl (.nil _)))
  have hbuilt : Succeeds {} (labelRequests.take 2) ((labelRequests.take 2).foldl after {}) :=
    .cons rfl (.cons rfl (.nil _))
  have hmisplaced := (build_key_error_iff .new rfl succeeds).1.mp ⟨_, rfl⟩
  have hiff := (build_key_error_iff .new rfl hbuilt).1
  have hfine : ¬∃ fault, (((labelRequests.take 2).foldl after {}).call build).1 =
      .error (.key fault) := by
    rintro ⟨fault, hfault⟩
    cases hfault
  exact ⟨succeeds, hmisplaced, mt hiff.mpr hfine, hfine⟩

end Yang.Instance.ResourceId.Builder
