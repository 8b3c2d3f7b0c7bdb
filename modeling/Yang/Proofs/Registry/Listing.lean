import Yang.Proofs.Registry.Anydata

/-!
# Listing nodes below anydata nodes

A registration below an anydata node looks all its paths up before it lists anything, so that a
failing one leaves nothing behind. The nodes come behind those that are listed already, each of
them once, and lists of other anydata nodes stay as they are. Lists therefore only grow at their
ends, and a path that is followed from its own module is followed to the same node afterwards: at
every step the entry that was found first is still the first one. Of paths that lead nowhere from
their own module the same is not true: they are tried from the imported modules then, and what is
registered later can give them a node of their own.
-/

namespace Yang

open Schema

namespace Schema.Tree

variable {t : Tree} {members grown : Members} {i : NodeId} {segment : String} {e : ContextEntry}

section Growing

variable (grows : ∀ i, members i <+: grown i)
include grows

/-- The entry that is found first stays the first one when lists grow. It is
needed that they only grow at their ends. -/
theorem step?_of_grows (h : t.step? members i segment = some e) :
    t.step? grown i segment = some e := by
  rw [step?] at h ⊢
  split at h
  · exact h
  · split at h
    · rename_i hanydata
      obtain ⟨added, hadded⟩ := grows i
      rw [if_pos hanydata, ← hadded, List.find?_append, h, Option.some_or]
    · cases h

theorem walk?_of_grows {rest : List String} (h : t.walk? members i segment rest = some e) :
    t.walk? grown i segment rest = some e := by
  induction rest generalizing i segment with
  | nil => exact step?_of_grows grows h
  | cons next rest ih =>
      rw [walk?] at h ⊢
      split at h
      · rename_i found hfound
        rw [step?_of_grows grows hfound]
        exact ih h
      · cases h

theorem follow?_of_grows {segments : List String} (h : t.follow? members i segments = some e) :
    t.follow? grown i segments = some e := by
  cases segments with
  | nil => cases h
  | cons segment rest => exact walk?_of_grows grows h

end Growing

/-- A path that is followed from its module does not need the imported ones. -/
theorem resolve_of_follow? {limits : Limits} {path : Path} {root : NodeId}
    (h : t.follow? members root path.segments = some e) :
    t.resolve members limits path root =
      (limits.check .pathDepth path.segments.length >>= fun _ => .ok e) := by
  have hsome : path.segments.isEmpty = false := by
    cases hsegments : path.segments with
    | nil =>
        rw [hsegments] at h
        cases h
    | cons segment rest => rfl
  rw [resolve, hsome, h]
  rfl

end Schema.Tree

namespace Registry

variable {r s : Registry} {i : NodeId} {location path : Path} {paths : List Path}
  {known entries : List ContextEntry} {e : ContextEntry}

section Entries

/-- The entries that are listed behind others: those for nodes that have not
been listed before, in their order. A node that occurs twice is listed once. -/
def unlisted (listed : List NodeId) : List ContextEntry → List ContextEntry
  | [] => []
  | e :: rest =>
    if e.node ∈ listed then unlisted listed rest else e :: unlisted (listed ++ [e.node]) rest

theorem addEntry_eq_ite (known : List ContextEntry) (e : ContextEntry) :
    addEntry known e =
      if e.node ∈ known.map ContextEntry.node then known else known ++ [e] := by
  have hknown : (known.any fun k => k.node == e.node) = true ↔
      e.node ∈ known.map ContextEntry.node := by
    simp [List.mem_map]
  rw [addEntry]
  simp only [hknown]

/-- Adding entries one by one appends those that are not listed. What was listed
before stays in front and in order. -/
theorem foldl_addEntry (known entries : List ContextEntry) :
    entries.foldl addEntry known =
      known ++ unlisted (known.map ContextEntry.node) entries := by
  induction entries generalizing known with
  | nil => rw [unlisted, List.append_nil, List.foldl_nil]
  | cons e rest ih =>
      rw [List.foldl_cons, ih, unlisted, addEntry_eq_ite]
      split
      · rfl
      · rw [List.map_append, List.append_assoc]
        rfl

theorem unlisted_eq_nil {listed : List NodeId} (h : ∀ e ∈ entries, e.node ∈ listed) :
    unlisted listed entries = [] := by
  induction entries with
  | nil => rfl
  | cons e rest ih =>
      obtain ⟨hfirst, hrest⟩ := List.forall_mem_cons.mp h
      rw [unlisted, if_pos hfirst]
      exact ih hrest

def Distinct (entries : List ContextEntry) : Prop := (entries.map ContextEntry.node).Nodup

theorem Distinct.addEntry (h : Distinct known) (e : ContextEntry) :
    Distinct (addEntry known e) := by
  rw [addEntry_eq_ite]
  split
  · exact h
  · rename_i hnew
    rw [Distinct, List.map_append, List.nodup_append']
    exact ⟨h, List.nodup_singleton _, List.disjoint_singleton.mpr hnew⟩

theorem Distinct.foldl_addEntry (h : Distinct known) (entries : List ContextEntry) :
    Distinct (entries.foldl Registry.addEntry known) := by
  induction entries generalizing known with
  | nil => exact h
  | cons e rest ih => exact ih (h.addEntry e)

end Entries

section Lists

theorem distinct_members (h : ∀ entry ∈ r.anydata, Distinct entry.2) (i : NodeId) :
    Distinct (r.members i) := by
  rw [members]
  cases hlookup : r.anydata.lookup i with
  | none => exact List.nodup_nil
  | some entries => exact h (i, entries) (Table.mem_of_lookup hlookup)

/-- A call keeps the lists without repeated nodes. Only registrations below
anydata nodes add to a list, and they skip what is there. -/
theorem distinct_after (h : ∀ entry ∈ r.anydata, Distinct entry.2) (request : Request) :
    ∀ entry ∈ (r.after request).anydata, Distinct entry.2 := by
  cases request with
  | register p =>
      rw [after]
      obtain ⟨e, hfails⟩ | ⟨modules, -, hok⟩ := registering_cases r p
      · rw [hfails]
        exact h
      · rw [hok]
        exact h
  | unregister id =>
      rw [after, unregister]
      split
      · exact h
      · exact fun entry hentry => h entry (List.mem_of_mem_filter hentry)
  | registerAnydata location paths =>
      rw [after]
      split
      · rename_i hok
        obtain ⟨target, entries, -, -, -, rfl⟩ := registerAnydata_eq_ok_iff.mp hok
        intro entry hentry
        obtain rfl | hold := Table.eq_or_mem_of_mem_put hentry
        · exact (distinct_members h target.node).foldl_addEntry entries
        · exact h entry hold
      · exact h

theorem distinct_foldl_after (t : Tree) (limits : Limits) (requests : List Request) :
    ∀ entry ∈ (requests.foldl after { tree := t, limits := limits }).anydata,
      Distinct entry.2 := by
  have hrun : ∀ r : Registry, (∀ entry ∈ r.anydata, Distinct entry.2) →
      ∀ entry ∈ (requests.foldl after r).anydata, Distinct entry.2 := by
    induction requests with
    | nil => exact fun _ h => h
    | cons request rest ih => exact fun r h => ih _ (distinct_after h request)
  exact hrun _ (List.forall_mem_nil _)

end Lists

section Steps

/-- A step that can fail, and can change the registry. -/
abbrev Step (α : Type) := ExceptT Error (StateM Registry) α

def run {α : Type} (r : Registry) (step : Step α) : Except Error α × Registry :=
  (ExceptT.run step).run r

/-- Resolve a path in the registry as it is at this step. -/
def lookUp (path : Path) : Step ContextEntry := do
  liftM ((← get).resolve path)

def change (i : NodeId) (f : List ContextEntry → List ContextEntry) : Step Unit :=
  modify fun r => { r with anydata := Table.put i (f (r.members i)) r.anydata }

/-- A registration below an anydata node, step by step: the list of the anydata
node is opened if it is not there, and each entry is put behind those that it
has at that time. -/
def listing (location : Path) (paths : List Path) : Step Unit := do
  let target ← lookUp location
  let kind ← liftM ((← get).tree.kindOf target.node)
  if kind ≠ .anydata then
    throw (.schema (.notAnydata location.text kind))
  let entries ← paths.mapM fun p => return (← lookUp p).forAnydata
  change target.node id
  entries.forM fun e => change target.node (addEntry · e)

variable {α β : Type}

@[simp] theorem run_pure (r : Registry) (a : α) : r.run (pure a) = (.ok a, r) := rfl

@[simp] theorem run_throw (r : Registry) (e : Error) : r.run (throw e : Step α) = (.error e, r) :=
  rfl

@[simp] theorem run_get (r : Registry) : r.run get = (.ok r, r) := rfl

@[simp] theorem run_lift (r : Registry) (x : Except Error α) : r.run (liftM x) = (x, r) := by
  cases x with
  | error e => rfl
  | ok a => rfl

theorem run_bind (r : Registry) (c : Step α) (f : α → Step β) :
    r.run (c >>= f) =
      match r.run c with
      | (.ok a, s) => s.run (f a)
      | (.error e, s) => (.error e, s) := by
  rw [run, run_bind_eq, ← run]
  obtain ⟨result, s⟩ := r.run c
  cases result <;> rfl

theorem run_lookUp (r : Registry) (path : Path) : r.run (lookUp path) = (r.resolve path, r) := by
  rw [lookUp, run_bind, run_get]
  exact run_lift r _

theorem run_mapM {f : α → Step β} {g : α → Except Error β}
    (effectless : ∀ a, r.run (f a) = (g a, r)) (as : List α) :
    r.run (as.mapM f) = (as.mapM g, r) := by
  induction as with
  | nil => simp only [List.mapM_nil, run_pure]; rfl
  | cons a as ih =>
      rw [List.mapM_cons, List.mapM_cons, run_bind, effectless]
      cases g a with
      | error e => rfl
      | ok b =>
          show r.run (as.mapM f >>= fun bs => pure (b :: bs)) = _
          rw [run_bind, ih]
          cases as.mapM g <;> rfl

def withMembers (r : Registry) (i : NodeId) (entries : List ContextEntry) : Registry :=
  { r with anydata := Table.put i entries r.anydata }

@[simp] theorem members_withMembers_self (r : Registry) (i : NodeId)
    (entries : List ContextEntry) : (r.withMembers i entries).members i = entries := by
  rw [members, withMembers, Table.lookup_put_self, Option.getD_some]

theorem lookup_withMembers_of_ne {j : NodeId} (h : j ≠ i) (entries : List ContextEntry) :
    (r.withMembers i entries).anydata.lookup j = r.anydata.lookup j :=
  Table.lookup_put_of_ne entries r.anydata h

theorem run_change (r : Registry) (i : NodeId) (f : List ContextEntry → List ContextEntry) :
    r.run (change i f) = (.ok (), r.withMembers i (f (r.members i))) := rfl

/-- The entries come behind those that are there when the list has been opened. -/
theorem run_changes (r : Registry) (i : NodeId) (known entries : List ContextEntry) :
    (r.withMembers i known).run (entries.forM fun e => change i (addEntry · e)) =
      (.ok (), r.withMembers i (entries.foldl addEntry known)) := by
  induction entries generalizing known with
  | nil => rfl
  | cons e rest ih =>
      show (r.withMembers i known).run
        (change i (addEntry · e) >>= fun _ => rest.forM fun e => change i (addEntry · e)) = _
      have hput : (r.withMembers i known).withMembers i (addEntry known e) =
          r.withMembers i (addEntry known e) := by
        simp only [withMembers, Table.put_put]
      rw [run_bind, run_change, members_withMembers_self, hput]
      exact ih (addEntry known e)

/-- Step by step, a registration below an anydata node gives what it gives as a
whole, and one that fails leaves the registry as it was. All that can fail comes
before the first change. -/
theorem run_listing (r : Registry) (location : Path) (paths : List Path) :
    r.run (listing location paths) =
      match r.registerAnydata location paths with
      | .ok s => (.ok (), s)
      | .error e => (.error e, r) := by
  have hentries : r.run (paths.mapM fun p => return (← lookUp p).forAnydata) =
      (paths.mapM fun p => return (← r.resolve p).forAnydata, r) := by
    apply run_mapM
    intro p
    rw [run_bind, run_lookUp]
    cases r.resolve p <;> rfl
  rw [listing, run_bind, run_lookUp]
  cases htarget : r.resolve location with
  | error e => rw [registerAnydata, htarget]; rfl
  | ok target =>
      simp only [run_bind, run_get, run_lift]
      cases hkind : r.tree.kindOf target.node with
      | error e =>
          rw [registerAnydata, htarget, bind_of_ok rfl, hkind]
          rfl
      | ok kind =>
          rw [registerAnydata, htarget, bind_of_ok rfl, hkind, bind_of_ok rfl]
          by_cases hanydata : kind = .anydata
          · simp only [hanydata, ne_eq, not_true_eq_false, if_false, run_bind, hentries]
            cases paths.mapM fun p => return (← r.resolve p).forAnydata with
            | error e => rfl
            | ok entries => exact run_changes r target.node (r.members target.node) entries
          · simp only [ne_eq, hanydata, not_false_eq_true, if_true, run_bind, run_throw]
            rfl

end Steps

def SameNode (r s : Registry) (path : Path) : Prop :=
  ∃ e e', r.resolve path = .ok e ∧ s.resolve path = .ok e' ∧ e'.node = e.node

section Effect

theorem members_withMembers_grow (h : r.members i <+: entries) (j : NodeId) :
    r.members j <+: (r.withMembers i entries).members j := by
  by_cases hj : j = i
  · rw [hj, members_withMembers_self]
    exact h
  · have hsame : (r.withMembers i entries).members j = r.members j := by
      rw [members, members, lookup_withMembers_of_ne hj]
    exact hsame ▸ List.prefix_rfl

/-- A path that is followed from its own module leads to what was followed,
within the limit. -/
theorem resolve_of_follow? {m : Module} (hm : r.module? ⟨path.module, path.revision⟩ = some m)
    (h : r.tree.follow? r.members m.root path.segments = some e) :
    r.resolve path =
      (r.limits.check .pathDepth path.segments.length >>= fun _ => .ok e) := by
  rw [resolve, hm]
  exact Tree.resolve_of_follow? h

/-- Lists that grow do not change where a path leads that is followed from its
own module. A path that needs the imported ones may lead elsewhere then, as its
own module comes first. -/
theorem resolve_withMembers (added : List ContextEntry) {m : Module}
    (hm : r.module? ⟨path.module, path.revision⟩ = some m)
    (h : r.tree.follow? r.members m.root path.segments = some e) :
    (r.withMembers i (r.members i ++ added)).resolve path = r.resolve path := by
  have grows := members_withMembers_grow (List.prefix_append (r.members i) added)
  exact (resolve_of_follow? (r := r.withMembers i (r.members i ++ added)) hm
    (Tree.follow?_of_grows grows h)).trans (resolve_of_follow? hm h).symm

/-- A registration below an anydata node that succeeds puts the nodes that are
not listed yet behind the others. The tables of models and modules stay as they
are. -/
theorem registerAnydata_appends (h : r.registerAnydata location paths = .ok s) :
    ∃ target entries, r.resolve location = .ok target ∧
      r.tree.kindOf target.node = .ok .anydata ∧
      List.Forall₂ (fun p e => ∃ found, r.resolve p = .ok found ∧ found.forAnydata = e)
        paths entries ∧
      s = r.withMembers target.node (r.members target.node ++
        unlisted ((r.members target.node).map ContextEntry.node) entries) := by
  obtain ⟨target, entries, htarget, hkind, hentries, rfl⟩ := registerAnydata_eq_ok_iff.mp h
  refine ⟨target, entries, htarget, hkind, hentries, ?_⟩
  rw [← foldl_addEntry]
  rfl

theorem mem_append_unlisted (known : List ContextEntry) (he : e ∈ entries) :
    e.node ∈ (known ++ unlisted (known.map ContextEntry.node) entries).map
      ContextEntry.node := by
  rw [← foldl_addEntry, List.mem_map, exists_mem_foldl_addEntry_iff]
  exact .inr ⟨e, he, rfl⟩

/-- A call that finds all its nodes listed changes nothing. The list has to be
there already, for otherwise an empty one would be added. -/
theorem registerAnydata_of_listed {target : ContextEntry}
    (htarget : s.resolve location = .ok target)
    (hkind : s.tree.kindOf target.node = .ok .anydata)
    (opened : s.anydata.lookup target.node = some (s.members target.node))
    (listed : ∀ p ∈ paths, ∃ found, s.resolve p = .ok found ∧
      found.node ∈ (s.members target.node).map ContextEntry.node) :
    s.registerAnydata location paths = .ok s := by
  have hlookups : ∀ p ∈ paths, ∃ e : ContextEntry,
      (return (← s.resolve p).forAnydata : Except Error ContextEntry) = .ok e := by
    intro p hp
    obtain ⟨found, hfound, -⟩ := listed p hp
    exact ⟨found.forAnydata, by rw [hfound]; rfl⟩
  obtain ⟨entries, hentries⟩ := exists_mapM_eq_ok_iff.mpr hlookups
  have hreads : List.Forall₂ (fun p e => ∃ found, s.resolve p = .ok found ∧ found.forAnydata = e)
      paths entries := by
    simpa [bind_eq_ok_iff, pure_eq_ok_iff] using mapM_eq_ok_iff.mp hentries
  have hlisted : ∀ e ∈ entries, e.node ∈ (s.members target.node).map ContextEntry.node := by
    intro e he
    obtain ⟨p, hp, found, hfound, rfl⟩ := exists_mem_of_forall₂ hreads he
    obtain ⟨found', hfound', hmem⟩ := listed p hp
    obtain rfl := Except.ok.inj (hfound.symm.trans hfound')
    exact hmem
  refine registerAnydata_eq_ok_iff.mpr ⟨target, entries, htarget, hkind, hreads, ?_⟩
  rw [foldl_addEntry, unlisted_eq_nil hlisted, List.append_nil, Table.put_eq_self opened]

/-- A registration that is made again changes nothing if its location and its
paths still resolve to the same nodes, all of which are listed by now. -/
theorem registerAnydata_again (h : r.registerAnydata location paths = .ok s)
    (hlocation : r.SameNode s location) (hpaths : ∀ p ∈ paths, r.SameNode s p) :
    s.registerAnydata location paths = .ok s := by
  obtain ⟨target, entries, htarget, hkind, hentries, rfl⟩ := registerAnydata_appends h
  obtain ⟨found, again, hfound, hagain, hnode⟩ := hlocation
  obtain rfl := Except.ok.inj (htarget.symm.trans hfound)
  apply registerAnydata_of_listed hagain
  · rw [hnode]
    exact hkind
  · rw [hnode, members_withMembers_self]
    exact Table.lookup_put_self ..
  · intro p hp
    obtain ⟨e, e', he, he', hsame⟩ := hpaths p hp
    obtain ⟨listed, hlisted, x, hx, rfl⟩ := exists_mem_of_forall₂ hentries.flip hp
    obtain rfl := Except.ok.inj (he.symm.trans hx)
    refine ⟨e', he', ?_⟩
    rw [hnode, members_withMembers_self, hsame]
    exact mem_append_unlisted (e := e.forAnydata) _ hlisted

end Effect

/-- In every registry that calls lead to no node is listed twice below an
anydata node. A registration below an anydata node that fails leaves the
registry as it was, although it takes one step after the other. One that
succeeds appends to the list of its anydata node, in their order, the nodes at
its paths that are not listed there yet, and changes nothing else. Made again,
it changes nothing if its location and its paths still resolve to the same
nodes. All paths that could be followed from their own modules resolve as
before. -/
theorem registerAnydata_lists (t : Tree) (limits : Limits) (requests : List Request)
    {r : Registry} (reached : requests.foldl after { tree := t, limits := limits } = r)
    (location : Path) (paths : List Path) :
    (∀ i, ((r.members i).map ContextEntry.node).Nodup) ∧
    (∀ e, r.registerAnydata location paths = .error e →
      r.run (listing location paths) = (.error e, r)) ∧
    ∀ s, r.registerAnydata location paths = .ok s →
      r.run (listing location paths) = (.ok (), s) ∧
      (∃ target entries, r.resolve location = .ok target ∧
        List.Forall₂ (fun p e => ∃ found, r.resolve p = .ok found ∧ found.forAnydata = e)
          paths entries ∧
        s.members target.node = r.members target.node ++
          unlisted ((r.members target.node).map ContextEntry.node) entries ∧
        (∀ i, i ≠ target.node → s.anydata.lookup i = r.anydata.lookup i) ∧
        { s with anydata := r.anydata } = r) ∧
      (r.SameNode s location → (∀ p ∈ paths, r.SameNode s p) →
        s.registerAnydata location paths = .ok s) ∧
      ∀ path m e, r.module? ⟨path.module, path.revision⟩ = some m →
        r.tree.follow? r.members m.root path.segments = some e →
        s.resolve path = r.resolve path ∧
          (path.segments.length ≤ r.limits.bound .pathDepth → s.resolve path = .ok e) := by
  have hrun := run_listing r location paths
  refine ⟨?distinct, ?fails, ?succeeds⟩
  case distinct =>
    have hdistinct := distinct_foldl_after t limits requests
    rw [reached] at hdistinct
    exact distinct_members hdistinct
  case fails =>
    intro e hfails
    rw [hrun, hfails]
  case succeeds =>
    intro s hok
    rw [hok] at hrun
    refine ⟨hrun, ?appends, registerAnydata_again hok, ?paths⟩
    all_goals
      obtain ⟨target, entries, htarget, -, hentries, rfl⟩ := registerAnydata_appends hok
    case appends =>
      exact ⟨target, entries, htarget, hentries, members_withMembers_self ..,
        fun i hi => lookup_withMembers_of_ne hi _, rfl⟩
    case paths =>
      intro path m e hm hfollow
      refine ⟨resolve_withMembers _ hm hfollow, fun hdepth => ?_⟩
      refine (resolve_withMembers _ hm hfollow).trans ?_
      rw [resolve_of_follow? hm hfollow, bind_of_ok (Limits.check_eq_ok_iff.mpr hdepth)]

/-- A shop with notes, and a depot with notes of its own, where there are more
of them. -/
def premises : Tree :=
  [.module "shop" "urn:shop" "s" none, .module "depot" "urn:depot" "d" none, .importModule 0 1,
    .anydata 0 "notes", .container 1 "notes", .anydata 3 "more", .anydata 1 "more"].foldl
      Tree.after {}

/-- The notes of the shop can have those of the depot below them. -/
def stocking : List Request :=
  [.register ⟨"shop", [⟨"shop", none⟩, ⟨"depot", none⟩]⟩,
    .registerAnydata ⟨"shop", none, ["notes"]⟩ [⟨"depot", none, ["notes", "more"]⟩]]

def stock : Registry := stocking.foldl after { tree := premises }

def further : Path := ⟨"depot", none, ["more"]⟩

theorem members_stock : stock.members 2 = [⟨4, none, true⟩] ∧ stock.members 4 = [] := by
  decide +kernel

theorem resolve_further : stock.resolve further = .ok ⟨5, none, false⟩ := by decide +kernel

/-- Further notes come behind those that the shop can have already, also if
there are two nodes of one name then. -/
theorem registerAnydata_notes :
    stock.registerAnydata ⟨"shop", none, ["notes"]⟩ [further] =
      .ok (stock.withMembers 2 [⟨4, none, true⟩, ⟨5, none, true⟩]) := by
  refine registerAnydata_eq_ok_iff.mpr ⟨⟨2, none, false⟩, [⟨5, none, true⟩], by decide +kernel,
    by decide +kernel, .cons ⟨_, resolve_further, rfl⟩ .nil, ?_⟩
  rw [members_stock.1]
  rfl

/-- The notes of that name are the first ones as before, and to register the
others again makes no difference. -/
theorem registerAnydata_lists_notes :
    stocking.foldl after { tree := premises } = stock ∧
      stock.registerAnydata ⟨"shop", none, ["notes"]⟩ [further] =
        .ok (stock.withMembers 2 [⟨4, none, true⟩, ⟨5, none, true⟩]) ∧
      (stock.withMembers 2 [⟨4, none, true⟩, ⟨5, none, true⟩]).registerAnydata
          ⟨"shop", none, ["notes"]⟩ [further] =
        .ok (stock.withMembers 2 [⟨4, none, true⟩, ⟨5, none, true⟩]) ∧
      (stock.withMembers 2 [⟨4, none, true⟩, ⟨5, none, true⟩]).resolve
        ⟨"shop", none, ["notes", "more"]⟩ = .ok ⟨4, none, true⟩ := by
  obtain ⟨-, -, succeeds⟩ := registerAnydata_lists premises {} stocking (r := stock) rfl
    ⟨"shop", none, ["notes"]⟩ [further]
  obtain ⟨-, -, again, paths⟩ := succeeds _ registerAnydata_notes
  refine ⟨rfl, registerAnydata_notes, again ?_ ?_, ?_⟩
  · exact ⟨⟨2, none, false⟩, ⟨2, none, false⟩, by decide +kernel, by decide +kernel, rfl⟩
  · refine List.forall_mem_singleton.mpr ?_
    exact ⟨_, ⟨5, none, false⟩, resolve_further, by decide +kernel, rfl⟩
  · exact (paths ⟨"shop", none, ["notes", "more"]⟩ ⟨⟨"shop", none⟩, "urn:shop", 0⟩ _
      (by decide +kernel) (by decide +kernel)).2 (by decide +kernel)

/-- If only the paths still resolve to the same nodes, a registration that is
made again can list them at another place: its location was found from an
imported module, and what was listed there is now found from its own. -/
theorem listed_elsewhere_again :
    ¬ ∀ (t : Tree) (limits : Limits) (requests : List Request) (r s : Registry)
      (location : Path) (paths : List Path),
      requests.foldl after { tree := t, limits := limits } = r →
      r.registerAnydata location paths = .ok s → (∀ p ∈ paths, r.SameNode s p) →
      s.registerAnydata location paths = .ok s := by
  intro claim
  have hok : stock.registerAnydata ⟨"shop", none, ["notes", "more", "more"]⟩ [further] =
      .ok (stock.withMembers 4 [⟨5, none, true⟩]) := by
    refine registerAnydata_eq_ok_iff.mpr ⟨⟨4, none, false⟩, [⟨5, none, true⟩], by decide +kernel,
      by decide +kernel, .cons ⟨_, resolve_further, rfl⟩ .nil, ?_⟩
    rw [members_stock.2]
    rfl
  have hpaths : ∀ p ∈ [further], stock.SameNode (stock.withMembers 4 [⟨5, none, true⟩]) p := by
    refine List.forall_mem_singleton.mpr ?_
    exact ⟨_, ⟨5, none, false⟩, resolve_further, by decide +kernel, rfl⟩
  have hchanged : ((stock.withMembers 4 [⟨5, none, true⟩]).registerAnydata
      ⟨"shop", none, ["notes", "more", "more"]⟩ [further]).toOption.map Registry.anydata ≠
        some (stock.withMembers 4 [⟨5, none, true⟩]).anydata := by
    decide +kernel
  rw [claim premises {} stocking stock _ _ _ rfl hok hpaths] at hchanged
  exact hchanged rfl

end Registry

end Yang
