import Yang.Proofs.Instance.Calls

/-!
# What a builder builds

Nothing comes after the key of a leaf-list entry: `Builder.Orderly` says so of the finished
keys, and every call keeps it, be it that the call fails. So every identifier that is built
is orderly. What an identifier consists of can be read off the calls, as long as all of them
succeed and none takes a key back: each branch point gives one key, which holds the key
leaves that were added before the next key began.
-/

namespace Yang

theorem Value.same_self (v : Value) : v.same v = true := by
  rw [Value.same]
  cases v.magnitude? with
  | none => simp
  | some d => simp [Decimal.same]

namespace Instance

namespace Key

/-- The key with more key leaves. It becomes the key of a list entry with the
first of them. -/
def withLeaves : Key → List KeyLeaf → Key
  | k, [] => k
  | .plain id, leaves => .listEntry id leaves
  | .listEntry id known, leaves => .listEntry id (known ++ leaves)
  | .leafListEntry id value, _ => .leafListEntry id value

@[simp] theorem withLeaves_nil (k : Key) : k.withLeaves [] = k := by
  cases k <;> rfl

@[simp] theorem withLeaves_leafListEntry (id : SchemaId) (value : Value)
    (leaves : List KeyLeaf) :
    (leafListEntry id value).withLeaves leaves = .leafListEntry id value := by
  cases leaves <;> rfl

/-- Key leaves that are added one after the other stand in the order of the
calls. -/
theorem withLeaves_cons (k : Key) (leaf : KeyLeaf) (leaves : List KeyLeaf) :
    k.withLeaves (leaf :: leaves) = (k.withLeaves [leaf]).withLeaves leaves := by
  cases leaves with
  | nil => rw [withLeaves_nil]
  | cons other leaves =>
      cases k with
      | plain id => rfl
      | listEntry id known => simp [withLeaves]
      | leafListEntry id value => rfl

theorem sameLeaves_self (leaves : List KeyLeaf) : sameLeaves leaves leaves = true := by
  induction leaves with
  | nil => rfl
  | cons leaf leaves ih => simp [sameLeaves, KeyLeaf.same, Value.same_self, ih]

theorem same_self (k : Key) : k.same k = true := by
  cases k <;> simp [same, sameLeaves_self, Value.same_self]

end Key

namespace ResourceId

theorem same_self (r : ResourceId) : r.same r = true := by
  rw [same]
  induction r.keys with
  | nil => rfl
  | cons k keys ih => simp [sameKeys, Key.same_self, ih]

namespace Builder

variable {b b' : Builder} {r : ResourceId}

section Orderly

/-- No finished key but the last one is that of an entry of a leaf-list. It
holds of every builder that calls lead to. -/
def Orderly (b : Builder) : Prop := ∀ k ∈ b.keys.dropLast, k.isTerminal = false

theorem Orderly.isTerminal_eq_false (h : b.Orderly) (hopen : b.isClosed = false) :
    ∀ k ∈ b.keys, k.isTerminal = false := by
  intro k hk
  rcases List.eq_nil_or_concat' b.keys with hkeys | ⟨init, last, hkeys⟩
  · rw [hkeys] at hk
    cases hk
  · rw [Orderly, hkeys, List.dropLast_concat] at h
    rw [isClosed, hkeys, List.getLast?_concat, Option.any_some] at hopen
    rw [hkeys, List.mem_append, List.mem_singleton] at hk
    rcases hk with hk | rfl
    · exact h k hk
    · exact hopen

theorem keeps_place (k : Key) : Keeps Orderly (place k) := by
  intro b hb
  rw [call_place]
  cases hclosed : b.isClosed with
  | true => exact hb
  | false =>
      intro k' hk'
      simp only [Bool.false_eq_true, if_false, List.dropLast_concat] at hk'
      exact hb.isTerminal_eq_false hclosed k' hk'

theorem keeps_settle : Keeps Orderly settle := .settle fun _ k hb _ => keeps_place k _ hb

theorem keeps_build : Keeps Orderly build := .build fun _ k hb _ => keeps_place k _ hb

theorem keeps_begin (k : Key) :
    Keeps Orderly (modify fun b => { b with pending := some k } : Call Unit) :=
  .change fun _ hb => hb

/-- Whatever a call does, the finished keys stay in order. A call that fails may
have placed some keys, but never one behind a terminal key. -/
theorem keeps_perform (request : Request) : Keeps Orderly request.perform := by
  cases request with
  | limit limits => exact .change fun b hb => hb
  | branch id => exact keeps_settle.bind fun _ => keeps_begin (.plain id)
  | keyLeaf leaf =>
      intro b hb
      rw [Request.perform, call_addKeyLeaf]
      split
      · split
        · exact hb
        · exact hb
      all_goals exact hb
  | branchLeafList id value =>
      intro b hb
      rw [Request.perform, call_branchLeafList]
      split
      · exact hb
      · exact keeps_settle.bind (fun _ => keeps_begin (.leafListEntry id value)) b hb
  | append r => exact keeps_settle.bind fun _ => .forM r.keys keeps_place
  | appendKeys keys => exact keeps_settle.bind fun _ => .forM keys keeps_place
  | removeLast =>
      intro b hb
      rw [Request.perform, call_removeLast]
      split
      · exact hb
      · exact fun k hk => hb k (List.dropLast_subset _ hk)
  | build => exact keeps_build.bind fun _ => .pure ()

theorem Reachable.orderly (h : b.Reachable) : b.Orderly := by
  induction h with
  | new => exact List.forall_mem_nil _
  | @copy b r _ built ih =>
      obtain ⟨b', hbuild⟩ : ∃ b', b.call build = (.ok r, b') := ⟨_, Prod.ext built rfl⟩
      obtain ⟨-, -, -, rfl⟩ := call_build_eq_ok_iff.mp hbuild
      have hkept := keeps_build b ih
      rwa [hbuild] at hkept
  | call _ request ih => exact keeps_perform request _ ih

end Orderly

/-- To build once more gives the same identifier and changes nothing. -/
theorem call_build_again (h : b.call build = (.ok r, b')) : b'.call build = (.ok r, b') := by
  obtain ⟨-, hdepth, rfl, rfl⟩ := call_build_eq_ok_iff.mp h
  have hsettled : b.settled.settled = b.settled := settled_of_pending _ rfl
  refine call_build_eq_ok_iff.mpr ⟨nofun, ?_, hsettled, rfl⟩
  rw [hsettled]
  exact hdepth

section Asked

namespace Request

def leaves : List Request → List KeyLeaf
  | .keyLeaf leaf :: rest => leaf :: leaves rest
  | .limit _ :: rest => leaves rest
  | _ => []

/-- The keys that calls ask for, in their order: one for each branch point,
which holds the key leaves added to it, one for each entry of a leaf-list, and
those that are appended. -/
def asked : List Request → List Key
  | [] => []
  | .branch id :: rest => (Key.plain id).withLeaves (leaves rest) :: asked rest
  | .branchLeafList id value :: rest => .leafListEntry id value :: asked rest
  | .append r :: rest => r.keys ++ asked rest
  | .appendKeys keys :: rest => keys ++ asked rest
  | _ :: rest => asked rest

end Request

/-- The calls all succeed, and they lead from the first builder to the last one.
It has the calls in order, so properties of them are proved by induction from
the front. -/
inductive Succeeds : Builder → List Request → Builder → Prop
  | nil (b : Builder) : Succeeds b [] b
  | cons {b next b' : Builder} {request : Request} {rest : List Request}
      (first : b.call request.perform = (.ok (), next)) (others : Succeeds next rest b') :
      Succeeds b (request :: rest) b'

variable {requests : List Request}

theorem call_addKeyLeaf_eq_ok {leaf : KeyLeaf} (h : b.call (addKeyLeaf leaf) = (.ok (), b')) :
    ∃ k, b.pending = some k ∧ { b with pending := some (k.withLeaves [leaf]) } = b' := by
  rw [call_addKeyLeaf] at h
  split at h
  · rename_i id known hpending
    split at h
    · exact ⟨_, hpending, (Prod.mk.inj h).2⟩
    · cases h
  · rename_i id hpending
    exact ⟨_, hpending, (Prod.mk.inj h).2⟩
  · cases h
  · cases h

theorem call_settle_begin_eq_ok {k : Key}
    (h : b.call (settle >>= fun _ => modify fun b => { b with pending := some k }) =
      (.ok (), b')) : { b.settled with pending := some k } = b' := by
  obtain ⟨_, next, hsettle, hbegin⟩ := call_bind_eq_ok_iff.mp h
  obtain ⟨-, rfl⟩ := call_settle_eq_ok_iff.mp hsettle
  exact (Prod.mk.inj hbegin).2

theorem call_appendKeys_eq_ok {keys : List Key}
    (h : b.call (appendKeys keys) = (.ok (), b')) :
    { b.settled with keys := b.settled.keys ++ keys } = b' := by
  obtain ⟨_, next, hsettle, hplace⟩ := call_bind_eq_ok_iff.mp h
  obtain ⟨-, rfl⟩ := call_settle_eq_ok_iff.mp hsettle
  exact (eq_of_call_forM_place hplace).symm

/-- The keys of a builder, after calls that all succeed and take nothing back,
are those it had at first, the pending one with the key leaves that were added
to it, and behind them those that the calls ask for. -/
theorem Succeeds.settled_keys (h : Succeeds b requests b') (kept : Request.removeLast ∉ requests)
    (unbuilt : Request.build ∉ requests) :
    b'.settled.keys =
      b.keys ++ (b.pending.map fun k => k.withLeaves (Request.leaves requests)).toList ++
        Request.asked requests := by
  induction h with
  | nil b =>
      have hsame : (fun k => Key.withLeaves k (Request.leaves [])) = id := by
        funext k
        exact Key.withLeaves_nil k
      rw [hsame, Option.map_id_fun, Request.asked, List.append_nil]
      rfl
  | @cons b next b' request rest first others ih =>
      obtain ⟨hother, hkept⟩ := not_or.mp (List.mem_cons.not.mp kept)
      obtain ⟨hother', hunbuilt⟩ := not_or.mp (List.mem_cons.not.mp unbuilt)
      rw [ih hkept hunbuilt]
      cases request with
      | limit limits =>
          obtain ⟨-, rfl⟩ := Prod.mk.inj first
          rfl
      | branch id =>
          obtain rfl := call_settle_begin_eq_ok first
          simp [Request.leaves, Request.asked, settled]
      | keyLeaf leaf =>
          obtain ⟨k, hpending, rfl⟩ := call_addKeyLeaf_eq_ok first
          simp [Request.leaves, Request.asked, hpending, ← Key.withLeaves_cons]
      | branchLeafList id value =>
          rw [Request.perform, call_branchLeafList] at first
          split at first
          · cases first
          · obtain rfl := call_settle_begin_eq_ok first
            simp [Request.leaves, Request.asked, settled]
      | append r =>
          obtain rfl := call_appendKeys_eq_ok first
          simp [Request.leaves, Request.asked, settled]
      | appendKeys keys =>
          obtain rfl := call_appendKeys_eq_ok first
          simp [Request.leaves, Request.asked, settled]
      | removeLast => exact absurd rfl hother
      | build => exact absurd rfl hother'

theorem Succeeds.reachable (h : Succeeds b requests b') (reachable : b.Reachable) :
    b'.Reachable := by
  induction h with
  | nil b => exact reachable
  | @cons b next b' request rest first others ih =>
      have hnext := reachable.call request
      rw [after, first] at hnext
      exact ih hnext

end Asked

/-- An identifier that is built after any calls has the keys of leaf-list
entries at its end only and no more keys than the limit allows, and to build
once more gives it again. After calls that all succeed, of which none takes a
key back or builds, it consists of the keys that they ask for. -/
theorem built_identifiers :
    (∀ b : Builder, b.Reachable → ∀ r b', b.call build = (.ok r, b') →
      (∀ k ∈ r.keys.dropLast, k.isTerminal = false) ∧
      r.keys.length ≤ b.limits.bound .pathDepth ∧
      b'.call build = (.ok r, b') ∧ r.same r = true) ∧
    ∀ requests b r, Succeeds {} requests b → Request.removeLast ∉ requests →
      Request.build ∉ requests → (b.call build).1 = .ok r → r.keys = Request.asked requests := by
  constructor
  · intro b reachable r b' hbuild
    have horderly := keeps_build b reachable.orderly
    obtain ⟨-, hdepth, rfl, rfl⟩ := call_build_eq_ok_iff.mp hbuild
    rw [hbuild] at horderly
    exact ⟨horderly, hdepth, call_build_again hbuild, same_self _⟩
  · intro requests b r succeeds kept unbuilt hbuild
    obtain ⟨-, -, hsettled, hr⟩ := call_build_eq_ok_iff.mp (Prod.ext hbuild rfl)
    rw [hr, ← hsettled, succeeds.settled_keys kept unbuilt]
    rfl

/-- The calls for a tag of the label on a crate. -/
def tagRequests : List Request :=
  [.branch ⟨"crate", "urn:store"⟩, .keyLeaf ⟨⟨"row", "urn:store"⟩, .text "a"⟩,
    .keyLeaf ⟨⟨"place", "urn:store"⟩, .text "b"⟩, .branch ⟨"label", "urn:store"⟩,
    .branchLeafList ⟨"tag", "urn:store"⟩ (.text "new")]

/-- The crate is selected by both of its key leaves, the label by its name
alone, and the tag by its value. -/
theorem built_identifiers_tag :
    ∃ b r, Succeeds {} tagRequests b ∧ b.call build = (.ok r, b.settled) ∧
      b.settled.call build = (.ok r, b.settled) ∧
      r.keys =
        [.listEntry ⟨"crate", "urn:store"⟩
            [⟨⟨"row", "urn:store"⟩, .text "a"⟩, ⟨⟨"place", "urn:store"⟩, .text "b"⟩],
          .plain ⟨"label", "urn:store"⟩, .leafListEntry ⟨"tag", "urn:store"⟩ (.text "new")] := by
  have succeeds : Succeeds {} tagRequests (tagRequests.foldl after {}) :=
    .cons rfl (.cons rfl (.cons rfl (.cons rfl (.cons rfl (.nil _)))))
  have hbuild : (tagRequests.foldl after {}).call build =
      (.ok ⟨(tagRequests.foldl after {}).settled.keys⟩, (tagRequests.foldl after {}).settled) :=
    rfl
  have hagain := built_identifiers.1 _ (succeeds.reachable .new) _ _ hbuild
  have hkeys := built_identifiers.2 _ _ _ succeeds (by decide) (by decide)
    (congrArg Prod.fst hbuild)
  exact ⟨_, _, succeeds, hbuild, hagain.2.2.1, hkeys⟩

end Builder

end ResourceId

end Instance

end Yang
