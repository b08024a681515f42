import AgentEngine.Arpc.RpcServer

/-!
The registries of `RPCServer` agree with each other.

* `Sound` is what every call keeps: pools are registered under their own names, and no pool that is
  referred to is stopped.
* `Agrees` is what the maps owe to each other. Not every call keeps it: `Safe` are those that do.
-/

namespace AgentEngine.Arpc.RPCServer

open Lib List AList

variable {σ : Type} [DecidableEq σ] {server server' : RPCServer σ}

/-- Some map of the server refers to a pool. -/
def RefersTo (server : RPCServer σ) (pool : Pool) : Prop :=
  (∃ name, server.threadPoolMap.lookup name = some pool) ∨
    ∃ rpcService, server.serviceThreadPoolMap.lookup rpcService = some (some pool)

/-- What every call keeps. -/
structure Sound (server : RPCServer σ) : Prop where
  named : ∀ name pool, server.threadPoolMap.lookup name = some pool → pool.name = name
  running : ∀ pool, server.RefersTo pool → pool ∉ server.stopped
  /-- The next pool that the server makes is a new one. -/
  numbered : ∀ pool, (server.RefersTo pool ∨ pool ∈ server.made ∨ pool ∈ server.stopped) →
    ∀ k, pool.origin = .server k → k < server.made.length

/-- A service is mapped to a pool that is registered under its own name. -/
def Pooled (server : RPCServer σ) (mapped : Option Pool) : Prop :=
  ∃ pool, mapped = some pool ∧ server.threadPoolMap.lookup pool.name = some pool

def AllPooled (server : RPCServer σ) : Prop :=
  ∀ rpcService mapped, server.serviceThreadPoolMap.lookup rpcService = some mapped →
    server.Pooled mapped

/-- Every service that answers a call is mapped to something. -/
def AllServed (server : RPCServer σ) : Prop :=
  ∀ rpcCode pair, server.rpcCallMap.lookup rpcCode = some pair →
    pair.service ∈ server.serviceThreadPoolMap

/-- The registries agree. -/
structure Agrees (server : RPCServer σ) : Prop where
  pooled : ∀ rpcService mapped, server.serviceThreadPoolMap.lookup rpcService = some mapped →
    ∃ pool, mapped = some pool ∧ server.threadPoolMap.lookup pool.name = some pool ∧
      pool ∉ server.stopped
  served : ∀ rpcCode pair, server.rpcCallMap.lookup rpcCode = some pair →
    pair.service ∈ server.serviceThreadPoolMap
  left : ∀ rpcService ∈ server.leaving, rpcService ∉ server.serviceThreadPoolMap ∧
    ∀ rpcCode pair, server.rpcCallMap.lookup rpcCode = some pair → pair.service ≠ rpcService

theorem Agrees.allPooled (agrees : server.Agrees) : server.AllPooled := by
  intro rpcService mapped found
  obtain ⟨pool, same, registered, -⟩ := agrees.pooled rpcService mapped found
  exact ⟨pool, same, registered⟩

/-- No pool that a service is mapped to is ever stopped. -/
theorem Sound.agrees_iff (sound : server.Sound) (stays : server.leaving = none) :
    server.Agrees ↔ server.AllPooled ∧ server.AllServed := by
  constructor
  · exact fun agrees => ⟨agrees.allPooled, agrees.served⟩
  · rintro ⟨pooled, served⟩
    refine ⟨?_, served, by simp [stays]⟩
    intro rpcService mapped found
    obtain ⟨pool, rfl, registered⟩ := pooled rpcService mapped found
    exact ⟨pool, rfl, registered, sound.running pool (.inr ⟨rpcService, found⟩)⟩

/-! ### Thread pools -/

/-- A running pool is registered under its name. -/
theorem Sound.addPool (sound : server.Sound) (pool : Pool) (running : pool ∉ server.stopped)
    (numbered : ∀ k, pool.origin = .server k → k < server'.made.length)
    (pools : server'.threadPoolMap = server.threadPoolMap.insert pool.name pool)
    (services : server'.serviceThreadPoolMap = server.serviceThreadPoolMap)
    (stopped : server'.stopped = server.stopped)
    (made : server.made.length ≤ server'.made.length ∧
      ∀ p ∈ server'.made, p ∈ server.made ∨ p = pool) : server'.Sound := by
  have refers : ∀ p, server'.RefersTo p → server.RefersTo p ∨ p = pool := by
    rintro p (⟨name, found⟩ | ⟨rpcService, found⟩)
    · rw [pools] at found
      rcases lookup_insert_eq_some.mp found with ⟨-, same⟩ | ⟨-, old⟩
      · exact .inr same
      · exact .inl (.inl ⟨name, old⟩)
    · exact .inl (.inr ⟨rpcService, services ▸ found⟩)
  constructor
  · intro name p found
    rw [pools] at found
    rcases lookup_insert_eq_some.mp found with ⟨same, rfl⟩ | ⟨-, old⟩
    · exact same.symm
    · exact sound.named name p old
  · intro p mem
    rw [stopped]
    rcases refers p mem with old | rfl
    · exact sound.running p old
    · exact running
  · intro p known k origin
    have cases' : (server.RefersTo p ∨ p ∈ server.made ∨ p ∈ server.stopped) ∨ p = pool := by
      rcases known with mem | mem | mem
      · exact (refers p mem).imp .inl id
      · exact (made.2 p mem).imp (fun old => .inr (.inl old)) id
      · exact .inl (.inr (.inr (stopped ▸ mem)))
    rcases cases' with old | rfl
    · exact (sound.numbered p old k origin).trans_le made.1
    · exact numbered k origin

/-- What `addAndStartThreadPool` comes to. -/
theorem addAndStartThreadPool_spec (sound : server.Sound) {desc : ThreadPoolDescriptor}
    {starts ready : Bool} (added : server.addAndStartThreadPool desc starts = (ready, server')) :
    (∃ pools made, server' = { server with threadPoolMap := pools, made } ∧
      ∀ name pool, server.threadPoolMap.lookup name = some pool → pools.lookup name = some pool) ∧
    server'.Sound ∧ (ready = true → (server'.getThreadPool desc.threadPoolName).isSome) := by
  unfold addAndStartThreadPool at added
  cases registered : server.getThreadPool desc.threadPoolName with
  | some pool =>
    rw [registered] at added
    cases added
    exact ⟨⟨_, _, rfl, fun _ _ found => found⟩, sound, fun _ => by simp [registered]⟩
  | none =>
    rw [registered] at added
    cases starts with
    | false =>
      cases added
      exact ⟨⟨_, _, rfl, fun _ _ found => found⟩, sound, nofun⟩
    | true =>
      cases added
      refine ⟨⟨_, _, rfl, ?_⟩, ?_, fun _ => by simp [getThreadPool]⟩
      · intro name pool found
        refine lookup_insert_eq_some.mpr (.inr ⟨?_, found⟩)
        rintro rfl
        exact nomatch registered.symm.trans found
      · refine sound.addPool (server.newThreadPool desc) ?_ ?_ rfl rfl rfl ?_
        · intro stopped
          exact absurd (sound.numbered _ (.inr (.inr stopped)) _ rfl) (lt_irrefl _)
        · rintro k ⟨⟩
          simp
        · simp

theorem AllPooled.addPools (pooled : server.AllPooled) {pools : UMap String Pool} (made : List Pool)
    (grows : ∀ name pool, server.threadPoolMap.lookup name = some pool → pools.lookup name = some pool) :
    { server with threadPoolMap := pools, made }.AllPooled := by
  intro rpcService mapped found
  obtain ⟨pool, same, registered⟩ := pooled rpcService mapped found
  exact ⟨pool, same, grows _ _ registered⟩

theorem Sound.registerThreadPool (sound : server.Sound) {pool : Pool} (started : server.IsStarted pool) :
    (server.registerThreadPool (some pool)).2.Sound := by
  refine sound.addPool pool started.1 ?_ rfl rfl rfl ⟨le_rfl, fun p mem => .inl mem⟩
  intro k origin
  rcases started.2 with mem | ⟨n, user⟩
  · exact sound.numbered pool (.inr (.inl mem)) k origin
  · exact nomatch origin.symm.trans user

omit [DecidableEq σ] in
/-- A service keeps its pool unless one of the same name takes its place. -/
theorem pooled_registerThreadPool {pool p : Pool} (pooled : server.Pooled (some p)) :
    (server.registerThreadPool (some pool)).2.Pooled (some p) ↔ (p.name = pool.name → p = pool) := by
  obtain ⟨_, ⟨⟩, registered⟩ := pooled
  constructor
  · rintro ⟨_, ⟨⟩, now⟩ same
    rcases lookup_insert_eq_some.mp now with ⟨-, is⟩ | ⟨other, -⟩
    · exact is
    · exact absurd same other
  · intro replaced
    refine ⟨p, rfl, lookup_insert_eq_some.mpr ?_⟩
    by_cases same : p.name = pool.name
    · exact .inl ⟨same, replaced same⟩
    · exact .inr ⟨same, registered⟩

/-! ### Services -/

section Services

variable (descriptor : σ → RPCServiceDescriptor) (orders : MapOrders σ)

/-- The methods of a service have different codes. -/
def DistinctCodes (rpcService : σ) : Prop :=
  ((descriptor rpcService).methods.map (packetCode (descriptor rpcService))).Nodup

instance (rpcService : σ) : Decidable (DistinctCodes descriptor rpcService) :=
  inferInstanceAs (Decidable (List.Nodup _))

variable {descriptor orders}

omit [DecidableEq σ] in
theorem collectMethods_isSome {rpcService : σ} {newMap : UMap UInt32 (ServiceMethodPair σ)}
    {methods : List RPCMethodDescriptor} :
    (collectMethods descriptor rpcService newMap methods).isSome ↔
      (methods.map (packetCode (descriptor rpcService))).Nodup ∧
        ∀ method ∈ methods, packetCode (descriptor rpcService) method ∉ newMap := by
  induction methods generalizing newMap with
  | nil => simp [collectMethods]
  | cons method methods ih =>
    rw [collectMethods]
    split
    · rename_i present
      simp [present]
    · rename_i fresh
      rw [ih, map_cons, nodup_cons, forall_mem_cons]
      simp only [mem_insert, not_or, mem_map, not_exists, not_and]
      constructor
      · rintro ⟨distinct, apart⟩
        exact ⟨⟨fun m mem => (apart m mem).1, distinct⟩, fresh, fun m mem => (apart m mem).2⟩
      · rintro ⟨⟨apart, distinct⟩, -, others⟩
        exact ⟨distinct, fun m mem => ⟨apart m mem, others m mem⟩⟩

omit [DecidableEq σ] in
theorem collectMethods_service {rpcService : σ} {newMap collected : UMap UInt32 (ServiceMethodPair σ)}
    {methods : List RPCMethodDescriptor}
    (done : collectMethods descriptor rpcService newMap methods = some collected)
    (before : ∀ rpcCode pair, newMap.lookup rpcCode = some pair → pair.service = rpcService) :
    ∀ rpcCode pair, collected.lookup rpcCode = some pair → pair.service = rpcService := by
  induction methods generalizing newMap with
  | nil =>
    cases done
    exact before
  | cons method methods ih =>
    rw [collectMethods] at done
    split at done
    · cases done
    · refine ih done ?_
      intro rpcCode pair found
      rcases lookup_insert_eq_some.mp found with ⟨-, rfl⟩ | ⟨-, old⟩
      · rfl
      · exact before rpcCode pair old

/-- A map of calls that answers new ones by a service, and the others as before. -/
def AddsCalls (server : RPCServer σ) (rpcService : σ) (calls : UMap UInt32 (ServiceMethodPair σ)) :
    Prop :=
  ∀ rpcCode pair, calls.lookup rpcCode = some pair →
    pair.service = rpcService ∨ server.rpcCallMap.lookup rpcCode = some pair

omit [DecidableEq σ] in
variable (server descriptor orders) in
/-- What `doRegisterService` comes to. -/
theorem doRegisterService_spec (rpcService : σ) :
    (DistinctCodes descriptor rpcService ∧ ∃ calls, server.AddsCalls rpcService calls ∧
      server.doRegisterService descriptor orders rpcService = (true, { server with rpcCallMap := calls })) ∨
    (¬ DistinctCodes descriptor rpcService ∧
      server.doRegisterService descriptor orders rpcService = (false, server)) := by
  have distinct : (collectMethods descriptor rpcService ∅ (descriptor rpcService).methods).isSome ↔
      DistinctCodes descriptor rpcService := by
    simp [collectMethods_isSome, DistinctCodes]
  unfold doRegisterService
  cases done : collectMethods descriptor rpcService ∅ (descriptor rpcService).methods with
  | none =>
    refine .inr ⟨?_, rfl⟩
    simp [← distinct, done]
  | some collected =>
    refine .inl ⟨distinct.mp (by simp [done]), _, ?_, rfl⟩
    intro rpcCode pair found
    rcases lookup_emplaceAll found with new | old
    · exact .inl (collectMethods_service done (by simp) rpcCode pair new)
    · exact .inr ((orders.calls.mem_entries () _).mp old)

omit [DecidableEq σ] in
variable (server descriptor) in
/-- What `doRegisterService` of one method comes to. -/
theorem doRegisterMethod_spec (rpcService : σ) (methodName : String) :
    (∃ calls, server.AddsCalls rpcService calls ∧
      server.doRegisterMethod descriptor rpcService methodName =
        (true, { server with rpcCallMap := calls })) ∨
    server.doRegisterMethod descriptor rpcService methodName = (false, server) := by
  unfold doRegisterMethod
  cases (descriptor rpcService).findMethodByName methodName with
  | none => exact .inr rfl
  | some method =>
    refine .inl ⟨_, ?_, rfl⟩
    intro rpcCode pair found
    rcases lookup_insert_eq_some.mp found with ⟨-, rfl⟩ | ⟨-, old⟩
    · exact .inl rfl
    · exact .inr old

/-- Calls are added, and their service is mapped to the pool of a name. -/
theorem Sound.mapService (sound : server.Sound) {calls : UMap UInt32 (ServiceMethodPair σ)}
    (rpcService : σ) (name : String) :
    ({ server with rpcCallMap := calls }.mapService rpcService name).Sound := by
  have refers : ∀ p, ({ server with rpcCallMap := calls }.mapService rpcService name).RefersTo p →
      server.RefersTo p := by
    rintro p (⟨name, found⟩ | ⟨other, found⟩)
    · exact .inl ⟨name, found⟩
    · rcases lookup_insert_eq_some.mp found with ⟨-, new⟩ | ⟨-, old⟩
      · exact .inl ⟨name, new.symm⟩
      · exact .inr ⟨other, old⟩
  exact ⟨sound.named, fun p mem => sound.running p (refers p mem),
    fun p known => sound.numbered p (known.imp_left (refers p))⟩

theorem allServed_mapService (served : server.AllServed) {calls : UMap UInt32 (ServiceMethodPair σ)}
    {rpcService : σ} (adds : server.AddsCalls rpcService calls) (name : String) :
    ({ server with rpcCallMap := calls }.mapService rpcService name).AllServed := by
  intro rpcCode pair found
  refine (mem_insert _).mpr ?_
  rcases adds rpcCode pair found with new | old
  · exact .inl new
  · exact .inr (served rpcCode pair old)

/-- The service is pooled if there is a pool of the name; the others depend on what was before. -/
theorem allPooled_mapService (sound : server.Sound) {calls : UMap UInt32 (ServiceMethodPair σ)}
    (rpcService : σ) (name : String) :
    ({ server with rpcCallMap := calls }.mapService rpcService name).AllPooled ↔
      (server.getThreadPool name).isSome ∧ ∀ other mapped, other ≠ rpcService →
        server.serviceThreadPoolMap.lookup other = some mapped → server.Pooled mapped := by
  constructor
  · intro pooled
    constructor
    · obtain ⟨pool, there, -⟩ := pooled rpcService _ (lookup_insert _)
      exact Option.isSome_iff_exists.mpr ⟨pool, there⟩
    · intro other mapped ne found
      exact pooled other mapped (lookup_insert_eq_some.mpr (.inr ⟨ne, found⟩))
  · rintro ⟨there, pooled⟩ other mapped found
    rcases lookup_insert_eq_some.mp found with ⟨-, rfl⟩ | ⟨ne, old⟩
    · obtain ⟨pool, registered⟩ := Option.isSome_iff_exists.mp there
      refine ⟨pool, registered, ?_⟩
      rw [sound.named name pool registered]
      exact registered
    · exact pooled other mapped ne old

/-! ### unRegisterService -/

omit [DecidableEq σ] in
theorem namedPools_of_pooled {services : List (σ × Option Pool)}
    (pooled : ∀ e ∈ services, e.2.isSome) :
    ∃ named, namedPools services = some named ∧
      ∀ name pool, (name, pool) ∈ named ↔ name = pool.name ∧ ∃ s, (s, some pool) ∈ services := by
  induction services with
  | nil => exact ⟨[], rfl, by simp⟩
  | cons e services ih =>
    obtain ⟨first, rest⟩ := forall_mem_cons.mp pooled
    match e with
    | (s, some pool) =>
      obtain ⟨named, done, mem⟩ := ih rest
      refine ⟨(pool.name, pool) :: named, by simp [namedPools, done], ?_⟩
      intro name p
      simp only [mem_cons, mem, Prod.mk.injEq, Option.some.injEq]
      constructor
      · rintro (⟨rfl, rfl⟩ | ⟨same, t, there⟩)
        · exact ⟨rfl, s, .inl ⟨rfl, rfl⟩⟩
        · exact ⟨same, t, .inr there⟩
      · rintro ⟨same, t, ⟨-, rfl⟩ | there⟩
        · exact .inl ⟨same, rfl⟩
        · exact .inr ⟨same, t, there⟩

variable (orders) in
/-- What `reconstructThreadPoolMap` comes to when every service is pooled: they all stay so, and no
pool of theirs is stopped. -/
theorem reconstructThreadPoolMap_spec (sound : server.Sound) (pooled : server.AllPooled)
    (held : List Pool) :
    ∃ pools stopped, server.reconstructThreadPoolMap orders held =
        some { server with threadPoolMap := pools, stopped } ∧
      { server with threadPoolMap := pools, stopped }.Sound ∧
      { server with threadPoolMap := pools, stopped }.AllPooled := by
  have mapped : ∀ s v, (s, v) ∈ orders.services.entries () server.serviceThreadPoolMap ↔
      server.serviceThreadPoolMap.lookup s = some v := fun s v => orders.services.mem_entries () _
  have notNull : ∀ e ∈ orders.services.entries () server.serviceThreadPoolMap, e.2.isSome := by
    rintro ⟨s, v⟩ found
    obtain ⟨pool, rfl, -⟩ := pooled s v ((mapped s v).mp found)
    rfl
  obtain ⟨named, done, mem⟩ := namedPools_of_pooled notNull
  simp only [mapped] at mem
  have rebuilt : ∀ name pool, (emplaceAll ∅ named).lookup name = some pool →
      name = pool.name ∧ ∃ s, server.serviceThreadPoolMap.lookup s = some (some pool) := by
    intro name pool found
    rcases lookup_emplaceAll found with absurd' | there
    · cases absurd'
    · exact (mem name pool).mp there
  refine ⟨emplaceAll ∅ named, _, by rw [reconstructThreadPoolMap, done]; rfl, ⟨?_, ?_, ?_⟩, ?_⟩
  · exact fun name pool found => (rebuilt name pool found).1.symm
  · -- a pool that is referred to now belongs to a service, which is one reference more
    intro pool refers
    obtain ⟨s, mappedTo⟩ : ∃ s, server.serviceThreadPoolMap.lookup s = some (some pool) := by
      rcases refers with ⟨name, found⟩ | mappedTo
      · exact (rebuilt name pool found).2
      · exact mappedTo
    intro stopped
    rcases mem_append.mp stopped with old | new
    · exact sound.running pool (.inr ⟨s, mappedTo⟩) old
    · have unused := (of_decide_eq_true (mem_filter.mp new).2).1
      exact unused (mem_map.mpr ⟨_, (mem pool.name pool).mpr ⟨rfl, s, mappedTo⟩, rfl⟩)
  · intro pool known
    refine sound.numbered pool ?_
    rcases known with (⟨name, found⟩ | mappedTo) | made | stopped
    · exact .inl (.inr (rebuilt name pool found).2)
    · exact .inl (.inr mappedTo)
    · exact .inr (.inl made)
    · rcases mem_append.mp stopped with old | new
      · exact .inr (.inr old)
      · obtain ⟨name, found⟩ := (orders.pools.mem_values () _).mp (mem_filter.mp new).1
        exact .inl (.inl ⟨name, found⟩)
  · intro s v found
    obtain ⟨pool, rfl, registered⟩ := pooled s v found
    refine ⟨pool, rfl, ?_⟩
    obtain ⟨pool', there⟩ := exists_lookup_emplaceAll (m := (∅ : UMap String Pool))
      ((mem pool.name pool).mpr ⟨rfl, s, found⟩)
    -- both are registered under the one name
    obtain ⟨same, t, found'⟩ := rebuilt _ _ there
    obtain ⟨_, ⟨⟩, registered'⟩ := pooled t _ found'
    rw [← same, registered] at registered'
    cases registered'
    exact there

/-- What the loop of `unRegisterService` has come to: the services are still pooled, the one that
leaves is gone from them if it was `met`, and nothing else is changed. -/
structure Removing (server : RPCServer σ) (rpcService : Option σ) (met : Prop) (server' : RPCServer σ) :
    Prop where
  sound : server'.Sound
  pooled : server'.AllPooled
  mapped : ∀ s, s ∈ server'.serviceThreadPoolMap ↔
    s ∈ server.serviceThreadPoolMap ∧ ¬ (met ∧ rpcService = some s)
  leaving : server'.leaving = server.leaving

variable (orders) in
theorem removeServiceThreadPool_spec (sound : server.Sound) (pooled : server.AllPooled)
    (rpcService : Option σ) (held : List Pool) :
    ∃ server', server.removeServiceThreadPool orders rpcService held = some server' ∧
      server.Removing rpcService True server' := by
  cases rpcService with
  | none =>
    obtain ⟨pools, stopped, done, sound', pooled'⟩ :=
      reconstructThreadPoolMap_spec orders sound pooled held
    exact ⟨_, done, sound', pooled', by simp, rfl⟩
  | some s =>
    have fewer : ∀ t v, (server.serviceThreadPoolMap.erase s).lookup t = some v →
        server.serviceThreadPoolMap.lookup t = some v := by
      intro t v found
      have ne : t ≠ s := by
        rintro rfl
        rw [lookup_erase] at found
        cases found
      rwa [lookup_erase_ne ne] at found
    let without := { server with serviceThreadPoolMap := server.serviceThreadPoolMap.erase s }
    have refers : ∀ p, without.RefersTo p → server.RefersTo p :=
      fun p mem => mem.imp_right fun ⟨t, found⟩ => ⟨t, fewer t _ found⟩
    have sound₁ : without.Sound :=
      ⟨sound.named, fun p mem => sound.running p (refers p mem),
        fun p known => sound.numbered p (known.imp_left (refers p))⟩
    obtain ⟨pools, stopped, done, sound', pooled'⟩ := reconstructThreadPoolMap_spec orders sound₁
      (fun t v found => pooled t v (fewer t v found)) held
    refine ⟨_, done, sound', pooled', ?_, rfl⟩
    intro t
    simp [without, mem_erase, and_comm, eq_comm]

variable (orders) in
/-- What the loop of `unRegisterService` comes to. -/
theorem removeCalls_spec (rpcService : Option σ) (held : List Pool)
    (calls : List (UInt32 × ServiceMethodPair σ)) (newMap : UMap UInt32 (ServiceMethodPair σ))
    (sound : server.Sound) (pooled : server.AllPooled) :
    ∃ server', removeCalls orders rpcService held server newMap calls = some server' ∧
      server.Removing rpcService (∃ e ∈ calls, e.2.shared = rpcService) server' ∧
      server'.rpcCallMap = emplaceAll newMap (calls.filter fun e => e.2.shared ≠ rpcService) := by
  induction calls generalizing server newMap with
  | nil => exact ⟨_, rfl, ⟨⟨sound.named, sound.running, sound.numbered⟩, pooled, by simp, rfl⟩, rfl⟩
  | cons e calls ih =>
    obtain ⟨rpcCode, pair⟩ := e
    rw [removeCalls]
    by_cases shared : pair.shared = rpcService
    · rw [if_pos shared]
      obtain ⟨server₁, done₁, first⟩ :=
        removeServiceThreadPool_spec orders sound pooled rpcService held
      obtain ⟨server₂, done₂, rest, calls'⟩ := ih newMap first.sound first.pooled
      refine ⟨server₂, by rw [done₁]; exact done₂, ⟨rest.sound, rest.pooled, ?_, ?_⟩, ?_⟩
      · intro s
        rw [rest.mapped, first.mapped]
        have met : ∃ e ∈ (rpcCode, pair) :: calls, e.2.shared = rpcService :=
          ⟨_, mem_cons_self, shared⟩
        simp only [met, true_and]
        exact ⟨fun h => h.1, fun h => ⟨h, fun both => h.2 both.2⟩⟩
      · exact rest.leaving.trans first.leaving
      · rw [calls', filter_cons_of_neg (by simp [shared])]
    · rw [if_neg shared]
      obtain ⟨server', done, rest, calls'⟩ := ih (emplace newMap rpcCode pair) sound pooled
      refine ⟨server', done, ⟨rest.sound, rest.pooled, ?_, rest.leaving⟩, ?_⟩
      · intro s
        rw [rest.mapped]
        simp [shared]
      · rw [calls', filter_cons_of_pos (by simp [shared])]
        rfl

end Services

/-! ### Calls -/

section Calls

variable (descriptor : σ → RPCServiceDescriptor) (orders : MapOrders σ)

/-- The calls after which the registries still agree.

* A service that is registered with a descriptor and would get the shared pool instead finds a pool
  under the name of its descriptor.
* A pool that is registered does not take the place of another one that a service uses, other than
  the service that is registered with it.
* A service that leaves has not been registered by a plain pointer as well, and if it is mapped to a
  pool, it still answers one of the calls that its shared pointer was registered for. -/
def Safe (server : RPCServer σ) : Call σ → Prop
  | .registerService rpcService desc _ =>
    server.overrides desc = true → DistinctCodes descriptor rpcService →
      (server.getThreadPool desc.threadPoolName).isSome
  | .registerServiceOn rpcService pool =>
    ∀ p ∈ pool, ∀ e ∈ server.serviceThreadPoolMap.entries, ∀ old ∈ e.2, old.name = p.name →
      old = p ∨ e.1 = rpcService ∧ DistinctCodes descriptor rpcService
  | .registerMethod _ _ _ _ => True
  | .registerThreadPool pool =>
    ∀ p ∈ pool, ∀ e ∈ server.serviceThreadPoolMap.entries, ∀ old ∈ e.2, old.name = p.name → old = p
  | .unRegisterService none _ => True
  | .unRegisterService (some rpcService) _ =>
    (rpcService ∈ server.serviceThreadPoolMap →
      ∃ e ∈ server.rpcCallMap.entries, e.2.shared = some rpcService) ∧
    ∀ e ∈ server.rpcCallMap.entries, e.2.service = rpcService → e.2.shared = some rpcService

instance (server : RPCServer σ) (call : Call σ) : Decidable (server.Safe descriptor call) := by
  rcases call with _ | _ | _ | _ | ⟨_ | _, _⟩ <;> unfold Safe <;> infer_instance

variable {descriptor orders}

section Registers

variable (sound : server.Sound) (stays : server.leaving = none) (served : server.AllServed)

include sound stays served

theorem agrees_mapService {rpcService : σ} {calls : UMap UInt32 (ServiceMethodPair σ)}
    (adds : server.AddsCalls rpcService calls) (name : String) :
    ({ server with rpcCallMap := calls }.mapService rpcService name).Agrees ↔
      (server.getThreadPool name).isSome ∧ ∀ other mapped, other ≠ rpcService →
        server.serviceThreadPoolMap.lookup other = some mapped → server.Pooled mapped := by
  rw [(sound.mapService rpcService name).agrees_iff stays, allPooled_mapService sound]
  exact and_iff_left (allServed_mapService served adds name)

variable (descriptor orders) in
/-- `doRegisterService` and the mapping after it. -/
theorem agrees_doRegisterService (rpcService : σ) (name : String) :
    let registered := match server.doRegisterService descriptor orders rpcService with
      | (true, server) => (true, server.mapService rpcService name)
      | (false, server) => (false, server)
    registered.2.Sound ∧ (registered.2.Agrees ↔
      (DistinctCodes descriptor rpcService → (server.getThreadPool name).isSome) ∧
      ∀ other mapped, (other = rpcService → ¬ DistinctCodes descriptor rpcService) →
        server.serviceThreadPoolMap.lookup other = some mapped → server.Pooled mapped) := by
  rcases doRegisterService_spec server descriptor orders rpcService with
    ⟨distinct, calls, adds, done⟩ | ⟨clash, done⟩
  · simp only [done, distinct, not_true, imp_false, true_implies]
    exact ⟨sound.mapService rpcService _, agrees_mapService sound stays served adds _⟩
  · simp only [done, clash, not_false_eq_true, implies_true, true_implies, false_implies, true_and]
    exact ⟨sound, (sound.agrees_iff stays).trans (and_iff_left served)⟩

variable (pooled : server.AllPooled)

include pooled

variable (descriptor) in
/-- `doRegisterService` of one method and the mapping after it. -/
theorem agrees_doRegisterMethod (rpcService : σ) (methodName : String) {name : String} (found : (server.getThreadPool name).isSome) :
    let registered := match server.doRegisterMethod descriptor rpcService methodName with
      | (true, server) => (true, server.mapService rpcService name)
      | (false, server) => (false, server)
    registered.2.Sound ∧ registered.2.Agrees := by
  rcases doRegisterMethod_spec server descriptor rpcService methodName with
    ⟨calls, adds, done⟩ | done
  · simp only [done]
    refine ⟨sound.mapService rpcService _, ?_⟩
    refine (agrees_mapService sound stays served adds _).mpr ⟨found, ?_⟩
    exact fun other mapped _ there => pooled other mapped there
  · simp only [done]
    exact ⟨sound, (sound.agrees_iff stays).mpr ⟨pooled, served⟩⟩

theorem registerService_spec (rpcService : σ) (desc : ThreadPoolDescriptor) (starts : Bool) :
    let server' := (server.registerService descriptor orders rpcService desc starts).2
    server'.Sound ∧
      (server'.Agrees ↔ server.Safe descriptor (.registerService rpcService desc starts)) := by
  dsimp only [registerService, Safe]
  cases overridden : server.overrides desc with
  | true =>
    simp only [if_true, true_implies]
    obtain ⟨sound', agrees⟩ := agrees_doRegisterService descriptor orders sound stays served
      rpcService desc.threadPoolName
    refine ⟨sound', agrees.trans (and_iff_left ?_)⟩
    exact fun other mapped _ there => pooled other mapped there
  | false =>
    simp only [Bool.false_eq_true, if_false, false_implies, iff_true]
    rcases added : server.addAndStartThreadPool desc starts with ⟨ready, base⟩
    obtain ⟨⟨pools, made, rfl, grows⟩, sound', found⟩ := addAndStartThreadPool_spec sound added
    have pooled' := pooled.addPools made grows
    cases ready with
    | false => exact ⟨sound', (sound'.agrees_iff stays).mpr ⟨pooled', served⟩⟩
    | true =>
      obtain ⟨sound₂, agrees⟩ := agrees_doRegisterService descriptor orders sound' stays served
        rpcService desc.threadPoolName
      refine ⟨sound₂, agrees.mpr ⟨fun _ => found rfl, ?_⟩⟩
      exact fun other mapped _ there => pooled' other mapped there

theorem registerMethod_spec (rpcService : σ) (methodName : String) (desc : ThreadPoolDescriptor)
    (starts : Bool) :
    let server' := (server.registerMethod descriptor rpcService methodName desc starts).2
    server'.Sound ∧ server'.Agrees := by
  dsimp only [registerMethod]
  rcases added : server.addAndStartThreadPool desc starts with ⟨ready, base⟩
  obtain ⟨⟨pools, made, rfl, grows⟩, sound', found⟩ := addAndStartThreadPool_spec sound added
  have pooled' := pooled.addPools made grows
  cases ready with
  | false => exact ⟨sound', (sound'.agrees_iff stays).mpr ⟨pooled', served⟩⟩
  | true =>
    exact agrees_doRegisterMethod descriptor sound' stays served pooled' rpcService methodName
      (found rfl)

variable (descriptor) in
theorem registerThreadPool_spec {pool : Option Pool} (started : ∀ p ∈ pool, server.IsStarted p) :
    let server' := (server.registerThreadPool pool).2
    server'.Sound ∧ (server'.Agrees ↔ server.Safe descriptor (.registerThreadPool pool)) := by
  cases pool with
  | none =>
    refine ⟨sound, iff_of_true ((sound.agrees_iff stays).mpr ⟨pooled, served⟩) ?_⟩
    exact nofun
  | some p =>
    have sound' := sound.registerThreadPool (started p rfl)
    refine ⟨sound', (sound'.agrees_iff stays).trans ((and_iff_left served).trans ?_)⟩
    constructor
    · rintro pooled' _ ⟨⟩ ⟨other, mapped⟩ mem old ⟨⟩
      have there := mem_lookup_iff.mpr mem
      exact (pooled_registerThreadPool (pooled other _ there)).mp (pooled' other _ there)
    · intro safe other mapped there
      obtain ⟨old, rfl, registered⟩ := pooled other mapped there
      exact (pooled_registerThreadPool ⟨old, rfl, registered⟩).mpr
        (safe p rfl ⟨other, some old⟩ (mem_lookup_iff.mp there) old rfl)

theorem registerServiceOn_spec (rpcService : σ) {pool : Option Pool} (started : ∀ p ∈ pool, server.IsStarted p) :
    let server' := (server.registerServiceOn descriptor orders rpcService pool).2
    server'.Sound ∧
      (server'.Agrees ↔ server.Safe descriptor (.registerServiceOn rpcService pool)) := by
  cases pool with
  | none =>
    refine ⟨sound, iff_of_true ((sound.agrees_iff stays).mpr ⟨pooled, served⟩) ?_⟩
    exact nofun
  | some p =>
    have sound' := sound.registerThreadPool (started p rfl)
    obtain ⟨sound₂, agrees⟩ := agrees_doRegisterService descriptor orders sound' stays served
      rpcService p.name
    refine ⟨sound₂, agrees.trans ?_⟩
    have found : ((server.registerThreadPool (some p)).2.getThreadPool p.name).isSome := by
      simp [registerThreadPool, getThreadPool]
    rw [and_iff_right fun _ => found]
    constructor
    · rintro pooled' _ ⟨⟩ ⟨other, mapped⟩ mem old ⟨⟩ same
      have there := mem_lookup_iff.mpr mem
      by_cases stale : other = rpcService ∧ DistinctCodes descriptor rpcService
      · exact .inr stale
      · left
        refine (pooled_registerThreadPool (pooled other _ there)).mp ?_ same
        exact pooled' other _ (not_and.mp stale) there
    · intro safe other mapped fresh there
      obtain ⟨old, rfl, registered⟩ := pooled other mapped there
      refine (pooled_registerThreadPool ⟨old, rfl, registered⟩).mpr ?_
      intro same
      rcases safe p rfl ⟨other, some old⟩ (mem_lookup_iff.mp there) old rfl same with
        is | ⟨is, distinct⟩
      · exact is
      · exact absurd distinct (fresh is)

end Registers

/-- The calls that `unRegisterService` keeps. -/
theorem lookup_kept {rpcService : Option σ} {calls : UMap UInt32 (ServiceMethodPair σ)}
    {rpcCode : UInt32} {pair : ServiceMethodPair σ} :
    (emplaceAll ∅ ((orders.calls.entries () calls).filter fun e => e.2.shared ≠ rpcService)).lookup
      rpcCode = some pair ↔ calls.lookup rpcCode = some pair ∧ pair.shared ≠ rpcService := by
  have mem : ∀ pair, (rpcCode, pair) ∈ (orders.calls.entries () calls).filter
      (fun e => e.2.shared ≠ rpcService) ↔
      calls.lookup rpcCode = some pair ∧ pair.shared ≠ rpcService := by
    intro pair
    rw [mem_filter, orders.calls.mem_entries, decide_eq_true_iff]
  constructor
  · intro found
    rcases lookup_emplaceAll found with old | new
    · cases old
    · exact (mem pair).mp new
  · intro kept
    obtain ⟨pair', found⟩ := exists_lookup_emplaceAll (m := ∅) ((mem pair).mpr kept)
    rcases lookup_emplaceAll found with old | new
    · cases old
    · -- the code has one entry
      have same := ((mem pair').mp new).1.symm.trans kept.1
      cases same
      exact found

variable (descriptor) in
theorem unRegisterService_spec (sound : server.Sound) (pooled : server.AllPooled)
    (served : server.AllServed) (rpcService : Option σ) (leaves : server.leaving = rpcService)
    (held : List Pool) :
    ∃ server', server.unRegisterService orders rpcService held = some server' ∧ server'.Sound ∧
      (server'.Agrees ↔ server.Safe descriptor (.unRegisterService rpcService held)) := by
  obtain ⟨server', done, rest, calls⟩ := removeCalls_spec orders rpcService held
    (orders.calls.entries () server.rpcCallMap) ∅ sound pooled
  refine ⟨server', done, rest.sound, ?_⟩
  have kept : ∀ rpcCode pair, server'.rpcCallMap.lookup rpcCode = some pair ↔
      server.rpcCallMap.lookup rpcCode = some pair ∧ pair.shared ≠ rpcService := by
    intro rpcCode pair
    rw [calls]
    exact lookup_kept
  have running : ∀ s mapped, server'.serviceThreadPoolMap.lookup s = some mapped →
      ∃ pool, mapped = some pool ∧ server'.threadPoolMap.lookup pool.name = some pool ∧
        pool ∉ server'.stopped := by
    intro s mapped found
    obtain ⟨pool, rfl, registered⟩ := rest.pooled s mapped found
    exact ⟨pool, rfl, registered, rest.sound.running pool (.inr ⟨s, found⟩)⟩
  have mapped := rest.mapped
  have left := rest.leaving.trans leaves
  cases rpcService with
  | none =>
    refine iff_of_true ⟨running, ?_, by simp [left]⟩ trivial
    intro rpcCode pair found
    exact (mapped _).mpr ⟨served rpcCode pair ((kept rpcCode pair).mp found).1, by simp⟩
  | some s =>
    constructor
    · intro agrees
      obtain ⟨unmapped, silent⟩ := agrees.left s left
      constructor
      · intro present
        by_contra unmet
        refine unmapped ((mapped s).mpr ⟨present, fun h => unmet ?_⟩)
        obtain ⟨⟨⟨rpcCode, pair⟩, mem, shared⟩, -⟩ := h
        exact ⟨⟨rpcCode, pair⟩, mem_lookup_iff.mp ((orders.calls.mem_entries () _).mp mem), shared⟩
      · rintro ⟨rpcCode, pair⟩ mem same
        by_contra plain
        exact silent rpcCode pair ((kept rpcCode pair).mpr ⟨mem_lookup_iff.mpr mem, plain⟩) same
    · rintro ⟨met, shared⟩
      have silent : ∀ rpcCode pair, server'.rpcCallMap.lookup rpcCode = some pair →
          pair.service ≠ s := by
        intro rpcCode pair found same
        obtain ⟨old, plain⟩ := (kept rpcCode pair).mp found
        exact plain (shared ⟨rpcCode, pair⟩ (mem_lookup_iff.mp old) same)
      refine ⟨running, ?_, ?_⟩
      · intro rpcCode pair found
        refine (mapped _).mpr ⟨served rpcCode pair ((kept rpcCode pair).mp found).1, ?_⟩
        rintro ⟨-, same⟩
        exact silent rpcCode pair found (Option.some.inj same).symm
      · intro s' leaves'
        obtain rfl : s = s' := Option.some.inj (left.symm.trans leaves')
        refine ⟨fun still => ?_, silent⟩
        obtain ⟨present, unmet⟩ := (mapped s).mp still
        obtain ⟨⟨rpcCode, pair⟩, mem, same⟩ := met present
        exact unmet ⟨⟨(rpcCode, pair), (orders.calls.mem_entries () _).mpr (mem_lookup_iff.mpr mem),
          same⟩, rfl⟩

/-- One call leaves the registries in agreement exactly if it is safe. -/
theorem step_spec (sound : server.Sound) (agrees : server.Agrees) {call : Call σ}
    (called : server.step descriptor orders call = some server') :
    server'.Sound ∧ (server'.Agrees ↔ server.Safe descriptor call) := by
  have sound₀ : ∀ leaving, { server with leaving }.Sound :=
    fun _ => ⟨sound.named, sound.running, sound.numbered⟩
  have pooled := agrees.allPooled
  have served : server.AllServed := agrees.served
  cases call with
  | registerService rpcService desc starts =>
    cases called
    exact registerService_spec (sound₀ none) rfl served pooled rpcService desc starts
  | registerServiceOn rpcService pool =>
    obtain ⟨started, same⟩ := Option.ite_none_right_eq_some.mp called
    cases same
    exact registerServiceOn_spec (sound₀ none) rfl served pooled rpcService started
  | registerMethod rpcService methodName desc starts =>
    cases called
    obtain ⟨sound', agrees'⟩ :=
      registerMethod_spec (sound₀ none) rfl served pooled rpcService methodName desc starts
    exact ⟨sound', iff_of_true agrees' trivial⟩
  | registerThreadPool pool =>
    obtain ⟨started, same⟩ := Option.ite_none_right_eq_some.mp called
    cases same
    exact registerThreadPool_spec descriptor (sound₀ none) rfl served pooled started
  | unRegisterService rpcService held =>
    obtain ⟨server₁, done, sound₁, iff₁⟩ := unRegisterService_spec descriptor (sound₀ rpcService)
      pooled served rpcService rfl held
    obtain rfl : server₁ = server' := Option.some.inj (done.symm.trans called)
    exact ⟨sound₁, iff₁⟩

variable (descriptor orders) in
/-- The registries of a new server agree after every call exactly if all calls are safe. -/
theorem registries_agree_iff (threadNum queueSize : Nat) (calls : List (Call σ)) :
    let start : RPCServer σ := { defaultThreadNum := threadNum, defaultQueueSize := queueSize }
    (∀ made, made <+: calls → ∀ server, after (step descriptor orders) start made = some server →
      server.Agrees) ↔
    Throughout (step descriptor orders) (Safe descriptor) start calls := by
  intro start
  have sound : start.Sound := by
    constructor
    · exact nofun
    · rintro pool (⟨_, ⟨⟩⟩ | ⟨_, ⟨⟩⟩)
    · rintro pool ((⟨_, ⟨⟩⟩ | ⟨_, ⟨⟩⟩) | ⟨⟨⟩⟩ | ⟨⟨⟩⟩)
  have agrees : start.Agrees :=
    ⟨nofun, nofun,
      nofun⟩
  have inv : ∀ server : RPCServer σ, ∀ call ∈ calls, ∀ server' : RPCServer σ,
      server.Sound ∧ server.Agrees → server.step descriptor orders call = some server' → server.Safe descriptor call →
      server'.Sound ∧ server'.Agrees := by
    intro server call _ server' ⟨sound, agrees⟩ called safe
    obtain ⟨sound', iff'⟩ := step_spec sound agrees called
    exact ⟨sound', iff'.mpr safe⟩
  exact throughout_iff_of_inv inv
    (fun server call _ server' good called => (step_spec good.1 good.2 called).2) ⟨sound, agrees⟩ agrees

/-- Three short runs after which the registries disagree.

* A shared pool is registered, and then a service with the default descriptor: it is mapped to a null
  pool.
* A service is registered with a pool, and then another pool of the same name: the pool of the service
  is no longer registered.
* Two services share the code of their method. The first one leaves after the second one took its call,
  and is still mapped. -/
theorem registries_disagree :
    let descriptor : Bool → RPCServiceDescriptor := fun _ => ⟨1, [⟨"Query", 1⟩]⟩
    let orders : MapOrders Bool := ⟨.stored, .stored, .stored⟩
    let start : RPCServer Bool := { defaultThreadNum := 1, defaultQueueSize := 50 }
    let first : Pool := { origin := .user 1, name := "shared" }
    let second : Pool := { origin := .user 2, name := "shared" }
    (∃ server ∈ after (step descriptor orders) start
        [.registerThreadPool (some first), .registerService true {} true],
      server.serviceThreadPoolMap.lookup true = some none) ∧
    (∃ server ∈ after (step descriptor orders) start
        [.registerServiceOn true (some first), .registerThreadPool (some second)],
      server.serviceThreadPoolMap.lookup true = some (some first) ∧
        server.threadPoolMap.lookup "shared" = some second) ∧
    (∃ server ∈ after (step descriptor orders) start
        [.registerMethod true "Query" {} true, .registerMethod false "Query" {} true,
          .unRegisterService (some true) []],
      true ∈ server.serviceThreadPoolMap) := by
  decide

end Calls

end AgentEngine.Arpc.RPCServer
