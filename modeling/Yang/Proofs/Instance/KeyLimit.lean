import Yang.Proofs.Instance.Composition

/-!
# How many key leaves a key has

A limit bounds the key leaves of one key. It is compared where a key leaf comes to the key of a
list entry, but not where the first key leaf makes a plain key the key of a list entry. So the
bound that calls keep is the limit or one, whichever is greater: `Builder.Limited` holds of
the finished keys and of the pending one after any calls that put a key together.
-/

namespace Yang.Instance

namespace Key

/-- The key leaves of a key. Only the key of a list entry has some. -/
def leaves : Key → List KeyLeaf
  | .listEntry _ leaves => leaves
  | .plain _ | .leafListEntry _ _ => []

/-- The key of a list entry has key leaves, but not more than the bound. -/
def Limited (bound : Nat) (k : Key) : Prop :=
  ∀ id leaves, k = .listEntry id leaves → 1 ≤ leaves.length ∧ leaves.length ≤ bound

theorem limited_plain (bound : Nat) (id : SchemaId) : (plain id).Limited bound := by
  rintro _ _ ⟨⟩

theorem limited_leafListEntry (bound : Nat) (id : SchemaId) (value : Value) :
    (leafListEntry id value).Limited bound := by
  rintro _ _ ⟨⟩

end Key

namespace ResourceId.Builder

/-- The call begins keys, adds key leaves, takes keys back or builds. It neither
changes the limits nor appends keys that were put together elsewhere. -/
def Request.Composes : Request → Prop
  | .branch _ | .keyLeaf _ | .branchLeafList _ _ | .removeLast | .build => True
  | .limit _ | .append _ | .appendKeys _ => False

/-- The limits are these, and the keys have no more key leaves than one or the
limit. The one is there since the first key leaf is never counted. -/
structure Limited (limits : Limits) (b : Builder) : Prop where
  limits_eq : b.limits = limits
  keys : ∀ k ∈ b.keys, k.Limited (max 1 limits.keyLeaves)
  pending : ∀ k, b.pending = some k → k.Limited (max 1 limits.keyLeaves)

variable {limits : Limits} {b : Builder}

theorem Limited.withPending (h : b.Limited limits) {k : Key}
    (hk : k.Limited (max 1 limits.keyLeaves)) :
    Limited limits { b with pending := some k } :=
  ⟨h.limits_eq, h.keys, fun _ hpending => Option.some.inj hpending ▸ hk⟩

theorem Limited.idle (h : b.Limited limits) : Limited limits { b with pending := none } := by
  refine ⟨h.limits_eq, h.keys, ?_⟩
  rintro _ ⟨⟩

section Steps

variable {k : Key}

theorem limited_place (hk : k.Limited (max 1 limits.keyLeaves)) :
    Keeps (Limited limits) (place k) := by
  intro b hb
  rw [call_place]
  split
  · exact hb
  · refine ⟨hb.limits_eq, ?_, hb.pending⟩
    rw [List.forall_mem_append, List.forall_mem_singleton]
    exact ⟨hb.keys, hk⟩

theorem limited_placing (b : Builder) (k : Key) (hb : b.Limited limits)
    (hpending : b.pending = some k) :
    Limited limits (Builder.call { b with pending := none } (place k)).2 :=
  limited_place (hb.pending k hpending) _ hb.idle

theorem limited_begin (hk : k.Limited (max 1 limits.keyLeaves)) :
    Keeps (Limited limits) (modify fun b => { b with pending := some k } : Call Unit) :=
  .change fun _ hb => hb.withPending hk

/-- A key leaf comes to a list key within the limit, or makes a plain key a list
key. Only the first of these is checked. -/
theorem limited_addKeyLeaf (leaf : KeyLeaf) : Keeps (Limited limits) (addKeyLeaf leaf) := by
  intro b hb
  rw [call_addKeyLeaf]
  split
  · rename_i id leaves hpending
    split
    · rename_i hcheck
      refine hb.withPending ?_
      rintro _ _ ⟨⟩
      have hle := Limits.check_eq_ok_iff.mp hcheck
      rw [hb.limits_eq] at hle
      rw [List.length_append, List.length_singleton]
      exact ⟨Nat.le_add_left 1 _, Nat.le_trans hle (Nat.le_max_right _ _)⟩
    · exact hb
  · refine hb.withPending ?_
    rintro _ _ ⟨⟩
    exact ⟨Nat.le_refl 1, Nat.le_max_left _ _⟩
  · exact hb
  · exact hb

/-- Whatever a call does that puts keys together, the bound is kept. Keys that
are appended were checked elsewhere, if at all, and are left aside. -/
theorem limited_perform {request : Request} (composes : request.Composes) :
    Keeps (Limited limits) request.perform := by
  cases request with
  | branch id =>
      exact (Keeps.settle limited_placing).bind fun _ => limited_begin (Key.limited_plain _ _)
  | keyLeaf leaf => exact limited_addKeyLeaf leaf
  | branchLeafList id value =>
      intro b hb
      rw [Request.perform, call_branchLeafList]
      split
      · exact hb
      · have hbegin := limited_begin (Key.limited_leafListEntry (max 1 limits.keyLeaves) id value)
        exact (Keeps.settle limited_placing).bind (fun _ => hbegin) b hb
  | removeLast =>
      intro b hb
      rw [Request.perform, call_removeLast]
      split
      · exact hb
      · exact ⟨hb.limits_eq, fun k hk => hb.keys k (List.dropLast_subset _ hk), hb.pending⟩
  | build => exact (Keeps.build limited_placing).bind fun _ => .pure ()
  | limit limits => cases composes
  | append r => cases composes
  | appendKeys keys => cases composes

theorem Limited.foldl_after (h : b.Limited limits) {requests : List Request}
    (composes : ∀ request ∈ requests, request.Composes) :
    (requests.foldl after b).Limited limits := by
  induction requests generalizing b with
  | nil => exact h
  | cons request rest ih =>
      obtain ⟨hfirst, hrest⟩ := List.forall_mem_cons.mp composes
      exact ih (limited_perform hfirst b h) hrest

end Steps

/-- A key leaf comes to a pending key that is not that of a leaf-list entry,
unless the key would have more than one key leaf and more than the limit. -/
theorem Limited.fst_call_addKeyLeaf (h : b.Limited limits) {k : Key} (hpending : b.pending = some k)
    (hopen : k.isTerminal = false) (leaf : KeyLeaf) :
    (b.call (addKeyLeaf leaf)).1 =
      if k.leaves.length + 1 ≤ max 1 limits.keyLeaves then .ok ()
      else .error (.limitExceeded .keyLeaves (k.leaves.length + 1) limits.keyLeaves) := by
  rw [call_addKeyLeaf, hpending]
  cases k with
  | plain id => exact (if_pos (Nat.le_max_left 1 _)).symm
  | leafListEntry id value => cases hopen
  | listEntry id leaves =>
      have hpos := (h.pending _ hpending id leaves rfl).1
      -- With its new leaf the key has two at least, so one more than none is never at stake.
      have hbound : leaves.length + 1 ≤ max 1 limits.keyLeaves ↔
          leaves.length + 1 ≤ limits.keyLeaves := by omega
      simp only [Key.leaves, hbound, h.limits_eq, Limits.check, Limits.bound]
      split
      · rename_i hcheck
        split at hcheck
        · rename_i hle
          rw [if_pos hle]
        · cases hcheck
      · rename_i e hcheck
        split at hcheck
        · cases hcheck
        · rename_i hgt
          rw [if_neg hgt, ← Except.error.inj hcheck]

/-- Whatever calls put keys together, every key of a list entry that is built
has key leaves, but no more than one or the limit, and so it keeps the limit
unless this is zero. A key leaf is added to a pending key, and refused on
account of the limit if the key would have more. -/
theorem key_leaves_limited (limits : Limits) {requests : List Request}
    (composes : ∀ request ∈ requests, request.Composes) :
    (∀ r, ((requests.foldl after { limits := limits }).call build).1 = .ok r →
      ∀ id leaves, .listEntry id leaves ∈ r.keys →
        1 ≤ leaves.length ∧ leaves.length ≤ max 1 limits.keyLeaves ∧
          (leaves.length ≤ limits.keyLeaves ↔ 0 < limits.keyLeaves)) ∧
    ∀ k leaf, (requests.foldl after { limits := limits }).pending = some k →
      k.isTerminal = false →
      ((requests.foldl after { limits := limits }).call (addKeyLeaf leaf)).1 =
        if k.leaves.length + 1 ≤ max 1 limits.keyLeaves then .ok ()
        else .error (.limitExceeded .keyLeaves (k.leaves.length + 1) limits.keyLeaves) := by
  have hnew : Limited limits { limits := limits } := by
    refine ⟨rfl, List.forall_mem_nil _, ?_⟩
    rintro _ ⟨⟩
  have hlimited := hnew.foldl_after composes
  refine ⟨?_, fun k leaf hpending hopen => hlimited.fst_call_addKeyLeaf hpending hopen leaf⟩
  intro r hbuild id leaves hmem
  obtain ⟨-, -, hsettled, rfl⟩ := call_build_eq_ok_iff.mp (Prod.ext hbuild rfl)
  rw [← hsettled] at hmem
  have hkey : (Key.listEntry id leaves).Limited (max 1 limits.keyLeaves) := by
    rcases List.mem_append.mp hmem with hmem | hmem
    · exact hlimited.keys _ hmem
    · exact hlimited.pending _ (Option.mem_toList.mp hmem)
  obtain ⟨hpos, hle⟩ := hkey id leaves rfl
  exact ⟨hpos, hle, by omega⟩

def crateRequests : List Request :=
  [.branch ⟨"crate", "urn:store"⟩, .keyLeaf ⟨⟨"row", "urn:store"⟩, .text "a"⟩]

/-- Where no key leaves are allowed, the row is added all the same, and the
crate is built. -/
theorem crate_past_limit :
    (∀ request ∈ crateRequests, request.Composes) ∧
      ∃ r, ((crateRequests.foldl after { limits := { keyLeaves := 0 } }).call build).1 = .ok r ∧
        .listEntry ⟨"crate", "urn:store"⟩ [⟨⟨"row", "urn:store"⟩, .text "a"⟩] ∈ r.keys :=
  ⟨by simp [crateRequests, Request.Composes], _, rfl, by decide⟩

/-- Where one key leaf is allowed, the crate keeps the limit, and a second one
is refused. -/
theorem key_leaves_limited_crate :
    (∀ request ∈ crateRequests, request.Composes) ∧
      (∃ r, ((crateRequests.foldl after { limits := { keyLeaves := 1 } }).call build).1 = .ok r ∧
        ∀ id leaves, .listEntry id leaves ∈ r.keys → leaves.length ≤ 1) ∧
      ((crateRequests.foldl after { limits := { keyLeaves := 1 } }).call
        (addKeyLeaf ⟨⟨"place", "urn:store"⟩, .text "b"⟩)).1 =
          .error (.limitExceeded .keyLeaves 2 1) := by
  have composes : ∀ request ∈ crateRequests, request.Composes := by
    simp [crateRequests, Request.Composes]
  obtain ⟨hkeys, hleaf⟩ := key_leaves_limited { keyLeaves := 1 } composes
  refine ⟨composes, ⟨_, rfl, fun id leaves hmem => ?_⟩, hleaf _ _ rfl rfl⟩
  exact (hkeys _ rfl id leaves hmem).2.1

end ResourceId.Builder

end Yang.Instance
