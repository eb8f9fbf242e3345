import BlockStack.Proofs.Pools
import BlockStack.Proofs.Retrying

/-!
# BlockStack.Proofs.Refreshing

The space of pools is updated in the order of their keys, up to the first pool that fails.

* `Backend.ask_getFreeSpace`: what comes of asking for the space of one pool.
* `Backend.Told`: some pools are asked for one after the other, and all of them are told.
  `Backend.Ends` is how that ends: no pool is left, or the next one fails.
* `Service.refreshPools_eq`, `Service.refreshSpace_eq`: the run of a refresh. Its index is the old one
  with what was told.
* `Backend.Told.first`: which pools are told of, and `Backend.Ends.fault` what ends it.
* `Service.refreshed_in_order`: all of this for any service that was loaded.
-/

namespace BlockStack

namespace Backend

variable {policy : RetryPolicy} {backend reached next last : Backend} {key : PoolKey}
  {space : FreeSpace} {told : List (PoolKey × FreeSpace)} {keys rest : List PoolKey}

/-! ## The space of one pool -/

theorem firm_getFreeSpace (key : PoolKey) : (getFreeSpace key).IsFirm := by
  intro backend fault h
  simp only [getFreeSpace] at h
  cases hpool : backend.pools.get? key with
  | some space =>
    rw [hpool] at h
    cases h
  | none =>
    rw [hpool] at h
    cases h
    rfl

theorem performed_getFreeSpace (key : PoolKey) (backend : Backend) :
    performed (getFreeSpace key) backend = (match backend.pools.get? key with
      | some space => .ok space
      | none => .error (backend.missing "get_free_space" key.text), backend) := by
  simp only [performed, getFreeSpace]
  cases backend.pools.get? key <;> rfl

/-- Two backends go by one name and have the same objects and pools. -/
structure Keeps (a b : Backend) : Prop where
  name : a.name = b.name
  objects : a.objects = b.objects
  pools : a.pools = b.pools

theorem Keeps.refl (backend : Backend) : backend.Keeps backend := ⟨rfl, rfl, rfl⟩

theorem Keeps.trans {a b c : Backend} (h : a.Keeps b) (h' : b.Keeps c) : a.Keeps c :=
  ⟨h.name.trans h'.name, h.objects.trans h'.objects, h.pools.trans h'.pools⟩

/-- A backend that is asked for the space of a pool tells what it has of the pool, and nothing stands
in the way of the next call, unless as many attempts as are allowed come to nothing. -/
theorem ask_getFreeSpace (policy : RetryPolicy) (backend : Backend) (key : PoolKey) :
    ∃ next : Backend, next.Keeps backend ∧
      (policy.attempts ≤ backend.troubles policy ∧ (∃ fault, fault.isTransient = true ∧
          backend.ask (some policy) (getFreeSpace key) = (.error fault, next)) ∨
        backend.troubles policy < policy.attempts ∧ next.troubles policy = 0 ∧
          backend.ask (some policy) (getFreeSpace key) = (match backend.pools.get? key with
            | some space => .ok space
            | none => .error (backend.missing "get_free_space" key.text), next)) := by
  rcases Nat.lt_or_ge (backend.troubles policy) policy.attempts with hclear | hspent
  · obtain ⟨entered, hask, hname, hobjects, hpools, huntroubled, -⟩ :=
      ask_clear (firm_getFreeSpace key) hclear
    refine ⟨entered, ⟨hname, hobjects, hpools⟩, .inr ⟨hclear, huntroubled, ?_⟩⟩
    rw [hask, performed_getFreeSpace, hpools, missing, hname]
    rfl
  · obtain ⟨fault, next, hask, htransient, hworn⟩ := ask_spent (firm_getFreeSpace key) hspent
    exact ⟨next, ⟨hworn.name, hworn.objects, hworn.pools⟩,
      .inl ⟨hspent, fault, htransient, hask⟩⟩

theorem ask_told (h : backend.ask (some policy) (getFreeSpace key) = (.ok space, next)) :
    next.Keeps backend ∧ backend.troubles policy < policy.attempts ∧ next.troubles policy = 0 ∧
      backend.pools.get? key = some space := by
  obtain ⟨after, hkeeps, ⟨-, fault, -, hask⟩ | ⟨hclear, huntroubled, hask⟩⟩ :=
    ask_getFreeSpace policy backend key
  · cases hask.symm.trans h
  · rw [hask] at h
    cases hpool : backend.pools.get? key with
    | some known =>
      rw [hpool] at h
      cases h
      exact ⟨hkeeps, hclear, huntroubled, rfl⟩
    | none =>
      rw [hpool] at h
      cases h

theorem ask_refused {fault : Fault}
    (h : backend.ask (some policy) (getFreeSpace key) = (.error fault, next)) :
    next.Keeps backend ∧
      (policy.attempts ≤ backend.troubles policy ∧ fault.isTransient = true ∨
        backend.troubles policy < policy.attempts ∧ backend.pools.get? key = none ∧
          fault = backend.missing "get_free_space" key.text) := by
  obtain ⟨after, hkeeps, ⟨hspent, cause, htransient, hask⟩ | ⟨hclear, -, hask⟩⟩ :=
    ask_getFreeSpace policy backend key
  · cases hask.symm.trans h
    exact ⟨hkeeps, .inl ⟨hspent, htransient⟩⟩
  · rw [hask] at h
    cases hpool : backend.pools.get? key with
    | some known =>
      rw [hpool] at h
      cases h
    | none =>
      rw [hpool] at h
      cases h
      exact ⟨hkeeps, .inr ⟨hclear, rfl, rfl⟩⟩

/-! ## The space of some pools -/

/-- A backend is asked for the space of some pools, one after the other, and tells them all. -/
inductive Told (policy : RetryPolicy) : Backend → List (PoolKey × FreeSpace) → Backend → Prop where
  | nil {backend : Backend} : Told policy backend [] backend
  | cons {backend next last : Backend} {key : PoolKey} {space : FreeSpace}
      {told : List (PoolKey × FreeSpace)} :
      backend.ask (some policy) (getFreeSpace key) = (.ok space, next) → Told policy next told last →
      Told policy backend ((key, space) :: told) last

/-- How it ends once some pools were told: none are left and they are counted, or the next one of
those that are left fails. -/
inductive Ends (policy : RetryPolicy) (count : Nat) (reached : Backend) :
    List PoolKey → Except Fault Nat → Backend → Prop where
  | all : Ends policy count reached [] (.ok count) reached
  | failed {key : PoolKey} {rest : List PoolKey} {fault : Fault} {last : Backend} :
      reached.ask (some policy) (getFreeSpace key) = (.error fault, last) →
      Ends policy count reached (key :: rest) (.error fault) last

theorem Told.keeps (h : Told policy backend told reached) : reached.Keeps backend := by
  induction h with
  | nil => exact .refl _
  | cons hask _ ih => exact ih.trans (ask_told hask).1

/-- What is told of a pool is what the backend has of it. -/
theorem Told.spaces (h : Told policy backend told reached) :
    ∀ entry ∈ told, backend.pools.get? entry.1 = some entry.2 := by
  induction h with
  | nil => exact fun _ hentry => absurd hentry List.not_mem_nil
  | cons hask _ ih =>
    obtain ⟨hkeeps, -, -, hspace⟩ := ask_told hask
    intro entry hentry
    rcases List.mem_cons.1 hentry with rfl | hentry
    · exact hspace
    · rw [← hkeeps.pools]
      exact ih entry hentry

theorem Told.known (h : Told policy backend told reached) :
    ∀ key ∈ told.map (·.1), backend.pools.contains key = true := by
  intro key hkey
  obtain ⟨entry, hentry, rfl⟩ := List.mem_map.1 hkey
  rw [SortedMap.contains, h.spaces entry hentry]
  rfl

/-- Only the first pool can fail by what stands in the way of calls. -/
theorem Told.clear (h : Told policy backend told reached)
    (hclear : backend.troubles policy < policy.attempts) :
    reached.troubles policy < policy.attempts := by
  induction h with
  | nil => exact hclear
  | cons hask _ ih =>
    obtain ⟨-, -, huntroubled, -⟩ := ask_told hask
    exact ih (huntroubled ▸ policy.attempts_pos)

theorem Told.nil_of_spent (h : Told policy backend told reached)
    (hspent : policy.attempts ≤ backend.troubles policy) : told = [] ∧ reached = backend := by
  cases h with
  | nil => exact ⟨rfl, rfl⟩
  | cons hask _ => exact absurd (ask_told hask).2.1 (Nat.not_lt.2 hspent)

/-- The pools that are told: if fewer attempts come to nothing than are allowed, all pools up to the
first that the backend does not know, and otherwise none. -/
theorem Told.first {result : Except Fault Nat} {count : Nat}
    (h : Told policy backend told reached) (hends : Ends policy count reached rest result last)
    (hcover : keys = told.map (·.1) ++ rest) : told.map (·.1) =
      if backend.troubles policy < policy.attempts then
        keys.takeWhile (backend.pools.contains ·)
      else [] := by
  split
  · rename_i hclear
    rw [hcover, List.takeWhile_append_of_pos h.known]
    cases hends with
    | all => exact (List.append_nil _).symm
    | failed hask =>
      obtain ⟨-, ⟨hspent, -⟩ | ⟨-, hunknown, -⟩⟩ := ask_refused hask
      · exact absurd (h.clear hclear) (Nat.not_lt.2 hspent)
      · rw [h.keeps.pools] at hunknown
        rw [List.takeWhile_cons_of_neg (by simp [SortedMap.contains, hunknown]), List.append_nil]
  · rename_i hspent
    rw [(h.nil_of_spent (Nat.not_lt.1 hspent)).1]
    rfl

theorem Ends.keeps {result : Except Fault Nat} {count : Nat}
    (h : Ends policy count reached rest result last) : last.Keeps reached := by
  cases h with
  | all => exact .refl _
  | failed hask => exact (ask_refused hask).1

/-- The pools that were told are counted if they are all. -/
theorem Ends.counted {result : Except Fault Nat}
    (h : Ends policy (0 + told.length) reached rest result last)
    (hcover : keys = told.map (·.1) ++ rest) :
    Ends policy keys.length reached rest result last := by
  cases h with
  | all =>
    have hcount : keys.length = 0 + told.length := by simp [hcover]
    rw [hcount]
    exact .all
  | failed hask => exact .failed hask

/-- The fault that ends it: one that passes, of the first pool, if all attempts come to nothing, and
otherwise that the first pool that the backend does not know is missing. -/
theorem Ends.fault {fault : Fault} {count : Nat}
    (hends : Ends policy count reached rest (.error fault) last)
    (h : Told policy backend told reached) (hcover : keys = told.map (·.1) ++ rest) :
    if backend.troubles policy < policy.attempts then
      ∃ key, keys.find? (!backend.pools.contains ·) = some key ∧
        fault = backend.missing "get_free_space" key.text
    else fault.isTransient = true := by
  cases hends with
  | @failed key rest _ _ hask =>
    split
    · rename_i hclear
      obtain ⟨-, ⟨hspent, -⟩ | ⟨-, hunknown, hfault⟩⟩ := ask_refused hask
      · exact absurd (h.clear hclear) (Nat.not_lt.2 hspent)
      · rw [h.keeps.pools] at hunknown
        refine ⟨key, List.find?_eq_some_iff_append.2 ⟨by simp [SortedMap.contains, hunknown],
          told.map (·.1), rest, hcover, fun other hother => ?_⟩, ?_⟩
        · rw [h.known other hother]
          rfl
        · rw [hfault, missing, h.keeps.name]
          rfl
    · rename_i hspent
      obtain ⟨-, rfl⟩ := h.nil_of_spent (Nat.not_lt.1 hspent)
      obtain ⟨-, ⟨-, htransient⟩ | ⟨hclear, -⟩⟩ := ask_refused hask
      · exact htransient
      · exact absurd hclear hspent

end Backend

/-! ## The index -/

/-- Pools with the space that was told of some of them. -/
def withSpaces (pools : SortedMap PoolKey StoragePool) (told : List (PoolKey × FreeSpace)) :
    SortedMap PoolKey StoragePool :=
  told.foldl (fun pools entry => pools.modify entry.1 (·.withSpace entry.2)) pools

section Index

variable {told : List (PoolKey × FreeSpace)}

theorem get?_withSpaces_of_not_mem {key : PoolKey} (h : key ∉ told.map (·.1)) :
    ∀ pools, (withSpaces pools told).get? key = pools.get? key := by
  induction told with
  | nil => exact fun _ => rfl
  | cons entry told ih =>
    intro pools
    rw [List.map_cons, List.mem_cons, not_or] at h
    exact (ih h.2 _).trans (SortedMap.get?_modify_of_ne _ _ h.1)

/-- A pool that is told of once has what was told. -/
theorem get?_withSpaces (hnodup : (told.map (·.1)).Nodup) :
    ∀ pools, ∀ entry ∈ told, (withSpaces pools told).get? entry.1 =
      (pools.get? entry.1).map (·.withSpace entry.2) := by
  induction told with
  | nil => exact fun _ _ hentry => absurd hentry List.not_mem_nil
  | cons first told ih =>
    intro pools entry hentry
    obtain ⟨hfirst, hnodup⟩ := List.nodup_cons.1 hnodup
    rcases List.mem_cons.1 hentry with rfl | hentry
    · exact (get?_withSpaces_of_not_mem hfirst _).trans (SortedMap.get?_modify_self ..)
    · have hne : entry.1 ≠ first.1 := fun heq =>
        hfirst (List.mem_map.2 ⟨entry, hentry, heq⟩)
      refine (ih hnodup _ entry hentry).trans ?_
      rw [SortedMap.get?_modify_of_ne _ _ hne]

end Index

namespace Service

variable {service : Service}

theorem keys_backedPools_sorted (pools : SortedMap PoolKey StoragePool) :
    (backedPools pools).Pairwise (compare · · = .lt) :=
  List.pairwise_map.2 (pools.filter _).sorted

theorem mem_backedPools {pools : SortedMap PoolKey StoragePool} {key : PoolKey} :
    key ∈ backedPools pools ↔
      ∃ pool, pools.get? key = some pool ∧ pool.provider.hasBackingObject = true := by
  simp [backedPools, SortedMap.keys, SortedMap.filter, SortedMap.mem_entries_iff]

/-- The run of a refresh: the first pools are told of and put in the index, and then no pool is left
or the next one fails. Nothing else changes. -/
theorem refreshPools_eq (keys : List PoolKey) : ∀ (service : Service) (done : Nat),
    service.registry.loaded = true → (∀ key ∈ keys, key ∈ service.registry.pools.keys) →
    ∃ told rest reached result backend, keys = told.map (·.1) ++ rest ∧
      Backend.Told service.retry service.backend told reached ∧
      Backend.Ends service.retry (done + told.length) reached rest result backend ∧
      service.refreshPools done keys = (result, { service with
        backend
        registry := { service.registry with pools := withSpaces service.registry.pools told } }) := by
  induction keys with
  | nil => exact fun service done _ _ => ⟨[], [], _, _, _, rfl, .nil, .all, rfl⟩
  | cons key keys ih =>
    intro service done hloaded hkeys
    cases hask : service.backend.ask (some service.retry) (Backend.getFreeSpace key) with
    | mk answer next =>
      cases answer with
      | error fault =>
        exact ⟨[], key :: keys, _, _, next, rfl, .nil, .failed hask, by rw [refreshPools, hask]; rfl⟩
      | ok space =>
        have hknown : service.registry.pools.contains key = true :=
          SortedMap.contains_iff.2 (hkeys key List.mem_cons_self)
        have hset : service.registry.setSpace key space = .ok { service.registry with
            pools := service.registry.pools.modify key (·.withSpace space) } := by
          rw [Registry.setSpace, if_pos hloaded, if_pos hknown]
        obtain ⟨told, rest, reached, result, backend, hcover, htold, hends, heq⟩ := ih
          { service with
            backend := next
            registry := { service.registry with
              pools := service.registry.pools.modify key (·.withSpace space) } }
          (done + 1) hloaded fun other hother => by
            rw [SortedMap.keys_modify]
            exact hkeys other (List.mem_cons_of_mem key hother)
        refine ⟨(key, space) :: told, rest, reached, result, backend, by rw [hcover]; rfl,
          .cons hask htold, ?_, ?_⟩
        · rwa [List.length_cons, Nat.add_comm told.length, ← Nat.add_assoc]
        · rw [refreshPools, hask]
          dsimp only
          rw [hset]
          exact heq

/-- What a refresh adds to that is an event. -/
theorem refreshSpace_eq {service : Service} (hloaded : service.registry.loaded = true) :
    ∃ told rest reached result backend next,
      backedPools service.registry.pools = told.map (·.1) ++ rest ∧
      Backend.Told service.retry service.backend told reached ∧
      Backend.Ends service.retry (0 + told.length) reached rest result backend ∧
      service.refreshSpace = (result, next) ∧ next.Noted { service with
        backend
        registry := { service.registry with pools := withSpaces service.registry.pools told } } := by
  obtain ⟨told, rest, reached, result, backend, hcover, htold, hends, heq⟩ :=
    refreshPools_eq (backedPools service.registry.pools) service 0 hloaded fun key hkey =>
      SortedMap.mem_keys_iff.2 ((mem_backedPools.1 hkey).imp fun _ h => h.1)
  have hrefresh : ∃ next, service.refreshSpace = (result, next) ∧ next.Noted { service with
      backend
      registry := { service.registry with pools := withSpaces service.registry.pools told } } := by
    unfold refreshSpace Registry.allPools
    rw [if_pos hloaded]
    dsimp only
    rw [heq]
    cases result with
    | error fault => exact ⟨_, rfl, .refl _⟩
    | ok done => exact ⟨_, rfl, note_noted ..⟩
  obtain ⟨next, hrefresh, hnoted⟩ := hrefresh
  exact ⟨told, rest, reached, result, backend, next, hcover, htold, hends, hrefresh, hnoted⟩

/-- What becomes of a service when the pools `keys` are refreshed, and the backend tells `told` of
them. -/
structure RefreshedInOrder (service : Service) (keys : List PoolKey)
    (told : List (PoolKey × FreeSpace)) (result : Except Fault Nat) (next : Service) : Prop where
  /-- The pools that are asked for are those that have backend objects, in the order of their keys. -/
  ordered : keys.Pairwise (compare · · = .lt)
  backed : ∀ key, key ∈ keys ↔ ∃ pool, service.registry.pools.get? key = some pool ∧
    pool.provider.hasBackingObject = true
  /-- They are told of one after the other. If none fails, it ends with their number, and otherwise
  with the fault of the next one. -/
  asked : ∃ rest reached, keys = told.map (·.1) ++ rest ∧
    Backend.Told service.retry service.backend told reached ∧
    Backend.Ends service.retry keys.length reached rest result next.backend
  /-- A pool fails that the backend does not know, or the first one, if too many attempts come to
  nothing. -/
  first : told.map (·.1) =
    if service.backend.troubles service.retry < service.retry.attempts then
      keys.takeWhile (service.backend.pools.contains ·)
    else []
  fault : ∀ fault, result = .error fault →
    if service.backend.troubles service.retry < service.retry.attempts then
      ∃ key, keys.find? (!service.backend.pools.contains ·) = some key ∧
        fault = service.backend.missing "get_free_space" key.text
    else fault.isTransient = true
  /-- A pool that is told of has the space that the backend has of it, and is otherwise as before. -/
  updated : ∀ entry ∈ told, service.backend.pools.get? entry.1 = some entry.2 ∧
    ∃ pool, service.registry.pools.get? entry.1 = some pool ∧
      next.registry.pools.get? entry.1 = some (pool.withSpace entry.2)
  /-- Any other pool is as before, -/
  others : ∀ key ∉ told.map (·.1),
    next.registry.pools.get? key = service.registry.pools.get? key
  /-- and so is all that the service holds but for its pools. -/
  kept : next.Still { service with
    registry := { service.registry with pools := next.registry.pools } }
  /-- The backend has its objects and pools as before. -/
  backend : next.backend.Keeps service.backend

/-- A refresh of a service that was loaded updates the pools with backend objects in the order of
their keys, up to the first that fails, and changes nothing else. -/
theorem refreshed_in_order (service : Service) (hloaded : service.registry.loaded = true) :
    ∃ keys told, service.RefreshedInOrder keys told service.refreshSpace.1
      service.refreshSpace.2 := by
  obtain ⟨told, rest, reached, result, backend, next, hcover, htold, hends, hrefresh, hnoted⟩ :=
    refreshSpace_eq hloaded
  have hnodup : (told.map (·.1)).Nodup := by
    have hall : (backedPools service.registry.pools).Nodup := SortedMap.nodup_keys _
    exact (List.nodup_append.1 (hcover ▸ hall)).1
  have hpools : next.registry.pools = withSpaces service.registry.pools told :=
    congrArg Registry.pools hnoted.registry
  refine ⟨backedPools service.registry.pools, told, ?_⟩
  rw [hrefresh]
  exact {
    ordered := keys_backedPools_sorted _
    backed := fun _ => mem_backedPools
    asked := by
      refine ⟨rest, reached, hcover, htold, ?_⟩
      rw [hnoted.backend]
      exact hends.counted hcover
    first := htold.first hends hcover
    fault := by
      rintro fault rfl
      exact hends.fault htold hcover
    updated := fun entry hentry => by
      have hkey : entry.1 ∈ backedPools service.registry.pools := by
        rw [hcover]
        exact List.mem_append_left _ (List.mem_map_of_mem hentry)
      obtain ⟨pool, hpool, -⟩ := mem_backedPools.1 hkey
      refine ⟨htold.spaces entry hentry, pool, hpool, ?_⟩
      rw [hpools, get?_withSpaces hnodup _ entry hentry, hpool, Option.map_some]
    others := fun key hkey => by rw [hpools, get?_withSpaces_of_not_mem hkey]
    kept := by
      rw [hpools]
      exact hnoted.toStill.trans ⟨⟨rfl, rfl, rfl, rfl⟩, rfl, rfl⟩
    backend := by
      rw [hnoted.backend]
      exact hends.keeps.trans htold.keeps }

/-- A service that holds four pools, one of them without backend objects. Its backend fails twice
and knows two of the pools. -/
def fourPools : Service where
  retry := { maxAttempts := 3 }
  tolerance := 0
  store := .memory {}
  backend := {
    name := "lvm", failuresPending := 2
    pools := .ofList [(⟨"n", "a"⟩, ⟨100, 40⟩), (⟨"n", "d"⟩, ⟨50, 50⟩)] }
  registry := {
    loaded := true
    pools := .ofList [
      (⟨"n", "a"⟩, { key := ⟨"n", "a"⟩, provider := .lvm, extentSizeKib := 4 }),
      (⟨"n", "b"⟩, { key := ⟨"n", "b"⟩, provider := .diskless, extentSizeKib := 4 }),
      (⟨"n", "c"⟩, { key := ⟨"n", "c"⟩, provider := .zfs, extentSizeKib := 8 }),
      (⟨"n", "d"⟩, { key := ⟨"n", "d"⟩, provider := .lvm, extentSizeKib := 4 })] }

/-- The first pool takes three calls; the third pool is not known, and then the last one is not
asked for. -/
theorem refreshed_in_order_four :
    (∃ keys told, fourPools.RefreshedInOrder keys told fourPools.refreshSpace.1
      fourPools.refreshSpace.2) ∧
    fourPools.refreshSpace.1 =
      .error (.backendFailed "lvm" "get_free_space" "no such object: n:c") ∧
    fourPools.refreshSpace.2.registry.pools = fourPools.registry.pools.modify ⟨"n", "a"⟩
      (fun pool => { pool with capacityKib := 100, freeKib := 40 }) ∧
    fourPools.refreshSpace.2.backend.calls = 4 := by
  refine ⟨refreshed_in_order fourPools rfl, ?_, ?_, ?_⟩ <;> rfl

end Service
end BlockStack
