import MiniRos2.ShmBase
import MiniRos2.ShmManager
import MiniRos2.Lib.Trans
import Mathlib.Data.Finset.Card
/-!
# Attach — which regions the live nodes have mapped

A node that starts opens the registry and the event region by name, or creates them when the names are not there; the
node that created them takes the names away when it exits, while the others keep their mappings.  All live nodes share
the regions as long as no node starts among nodes that have outlived the creator (`shared_of_run`), and one that does
gets regions of its own (`not_shared_of_start`).
-/
namespace MiniRos2

def SHM_MANAGER_NAME : List UInt8 := utf8 "/miniros2_dds_shm_manager"
def EVENT_NOTIFICATION_SHM_NAME : List UInt8 := utf8 "/miniros2_event_notification"
def EVENT_NOTIFICATION_SHM_SIZE : Nat := 4096

structure EventNotificationShm where
  shm_ : SharedMemory
  is_owner_ : Bool

namespace EventNotificationShm

def construct : Except Abort EventNotificationShm := do
  let shm_ ← SharedMemory.ofSize EVENT_NOTIFICATION_SHM_NAME EVENT_NOTIFICATION_SHM_SIZE
  return ⟨shm_, false⟩

def exists_ (e : EventNotificationShm) (sp : ShmSpace) : Bool := e.shm_.exists_ sp

def open_ (e : EventNotificationShm) (sp : ShmSpace) : Except Abort EventNotificationShm :=
  match e.shm_.open_ sp with
  | (true, shm_) => .ok { e with shm_ := shm_ }
  | (false, _) => .error (.throws (.runtimeError (utf8 "Failed to open event notification shared memory")))

def create (e : EventNotificationShm) (sp : ShmSpace) : Except Abort (EventNotificationShm × ShmSpace) :=
  match e.shm_.create sp with
  | (true, shm_, sp') => do
    let e' ← open_ ⟨shm_, true⟩ sp'
    return (e', sp')
  | (false, _, _) => .error (.throws (.runtimeError (utf8 "Failed to create event notification shared memory")))

/-- `~EventNotificationShm`: it closes the mapping in both branches, and the `SharedMemory` unlinks if it is the
owner. -/
def destroy (e : EventNotificationShm) (sp : ShmSpace) : ShmSpace := e.shm_.close.destroy sp

end EventNotificationShm

/-- The two members of `ShmManager` that hold mappings. -/
structure ShmLinks where
  shm_ : ShmBase
  event_notification_shm_ : EventNotificationShm

namespace ShmLinks

/-- The two `if`s of the constructor. -/
def reachEvent (event : EventNotificationShm) (sp : ShmSpace) : Except Abort (EventNotificationShm × ShmSpace) :=
  if event.exists_ sp then do
    let event ← event.open_ sp
    return (event, sp)
  else event.create sp

def reachRegistry (shm_ : ShmBase) (sp : ShmSpace) : Except Abort (ShmBase × ShmSpace) :=
  if shm_.exists_ sp then do
    let shm_ ← shm_.open_ sp
    return (shm_, sp)
  else do
    let (shm_, sp) ← shm_.create sp
    let shm_ ← shm_.open_ sp
    return (shm_, sp)

/-- `ShmManager::ShmManager`; reading the tables of a region that was opened changes no name and no mapping. -/
def construct (sp : ShmSpace) : Except Abort (ShmLinks × ShmSpace) := do
  let shm_ ← ShmBase.ofSize SHM_MANAGER_NAME MAX_SHM_MANGER_SIZE
  let event ← EventNotificationShm.construct
  let (event, sp) ← reachEvent event sp
  let (shm_, sp) ← reachRegistry shm_ sp
  return (⟨shm_, event⟩, sp)

/-- `ShmManager::~ShmManager`. -/
def destroy (a : ShmLinks) (sp : ShmSpace) : ShmSpace :=
  a.shm_.shm_.destroy (a.event_notification_shm_.destroy sp)

end ShmLinks

/-! ## What a start does -/

/-- **A region was reached by its name**: opened if the name was there, and created and owned otherwise. -/
inductive Reached (sp : ShmSpace) (name : List UInt8) (size : Nat) : SharedMemory → ShmSpace → Prop where
  | opened {id : Nat} : sp.lookup name = some id → Reached sp name size ⟨name, size, some id, false⟩ sp
  | created {sp' : ShmSpace} : sp.lookup name = none → sp.create name (Region.fresh size) = some (sp.next, sp') →
      Reached sp name size ⟨name, size, some sp.next, true⟩ sp'

/-- A mapping that is not there yet is opened or created, as the name is there or not. -/
theorem reached_cases (sp : ShmSpace) (name : List UInt8) (size : Nat) :
    (SharedMemory.exists_ ⟨name, size, none, false⟩ sp = true ∧
      ∃ m, SharedMemory.open_ ⟨name, size, none, false⟩ sp = (true, m) ∧ Reached sp name size m sp) ∨
    ¬ SharedMemory.exists_ ⟨name, size, none, false⟩ sp = true ∧
      ∃ sp', SharedMemory.create ⟨name, size, none, false⟩ sp = (true, ⟨name, size, some sp.next, true⟩, sp') ∧
        Reached sp name size ⟨name, size, some sp.next, true⟩ sp' := by
  unfold SharedMemory.exists_
  cases hl : sp.lookup name with
  | some id => exact .inl ⟨rfl, _, SharedMemory.open_of_lookup rfl hl, .opened hl⟩
  | none =>
    obtain ⟨sp', hsp, hm⟩ := SharedMemory.create_of_lookup_none (m := ⟨name, size, none, false⟩) rfl hl
    exact .inr ⟨Bool.false_ne_true, sp', hm, .created hl hsp⟩

theorem reachEvent_eq (sp : ShmSpace) (name : List UInt8) (size : Nat) :
    ∃ m sp' b, ShmLinks.reachEvent ⟨⟨name, size, none, false⟩, false⟩ sp = .ok (⟨m, b⟩, sp') ∧
      Reached sp name size m sp' := by
  unfold ShmLinks.reachEvent EventNotificationShm.exists_
  rcases reached_cases sp name size with ⟨hex, m, hopen, hm⟩ | ⟨hex, sp', hcreate, hm⟩
  · rw [if_pos hex, EventNotificationShm.open_, hopen]
    exact ⟨m, sp, false, rfl, hm⟩
  · rw [if_neg hex, EventNotificationShm.create, hcreate]
    exact ⟨_, sp', true, rfl, hm⟩

theorem reachRegistry_eq (sp : ShmSpace) (name : List UInt8) (size : Nat) :
    ∃ m sp' b, ShmLinks.reachRegistry ⟨⟨name, size, none, false⟩, false⟩ sp = .ok (⟨m, b⟩, sp') ∧
      Reached sp name size m sp' := by
  unfold ShmLinks.reachRegistry ShmBase.exists_
  rcases reached_cases sp name size with ⟨hex, m, hopen, hm⟩ | ⟨hex, sp', hcreate, hm⟩
  · rw [if_pos hex, ShmBase.open_, hopen]
    exact ⟨m, sp, true, rfl, hm⟩
  · rw [if_neg hex, ShmBase.create, hcreate]
    exact ⟨_, sp', true, rfl, hm⟩

/-- **What a start does**: it reaches both regions by their names, and never throws. -/
theorem construct_reached (sp : ShmSpace) :
    ∃ a sp₁ sp', ShmLinks.construct sp = .ok (a, sp') ∧
      Reached sp EVENT_NOTIFICATION_SHM_NAME EVENT_NOTIFICATION_SHM_SIZE a.event_notification_shm_.shm_ sp₁ ∧
      Reached sp₁ SHM_MANAGER_NAME (sizeofShmHead + MAX_SHM_MANGER_SIZE) a.shm_.shm_ sp' := by
  have hbase : ShmBase.ofSize SHM_MANAGER_NAME MAX_SHM_MANGER_SIZE =
      .ok ⟨⟨SHM_MANAGER_NAME, sizeofShmHead + MAX_SHM_MANGER_SIZE, none, false⟩, false⟩ := rfl
  have hevent : EventNotificationShm.construct =
      .ok ⟨⟨EVENT_NOTIFICATION_SHM_NAME, EVENT_NOTIFICATION_SHM_SIZE, none, false⟩, false⟩ := rfl
  obtain ⟨m, sp₁, b, he, hm⟩ := reachEvent_eq sp EVENT_NOTIFICATION_SHM_NAME EVENT_NOTIFICATION_SHM_SIZE
  obtain ⟨m', sp', b', hr, hm'⟩ := reachRegistry_eq sp₁ SHM_MANAGER_NAME (sizeofShmHead + MAX_SHM_MANGER_SIZE)
  refine ⟨⟨⟨m', b'⟩, ⟨m, b⟩⟩, sp₁, sp', ?_, hm, hm'⟩
  unfold ShmLinks.construct
  rw [hbase, Except.ok_bind, hevent, Except.ok_bind, he, Except.ok_bind]
  show (ShmLinks.reachRegistry _ sp₁ >>= _) = _
  rw [hr]
  rfl

/-! ## Nodes -/

/-- The name space, and what every node has mapped; nodes are numbered as they start. -/
structure Hosts where
  space : ShmSpace
  started : Nat
  node : Nat → ShmLinks
  live : Finset Nat

inductive HostAct where
  | start
  | exit (i : Nat)

/-- After the start of a node that has mapped `a`. -/
def Hosts.enrol (h : Hosts) (a : ShmLinks) (sp : ShmSpace) : Hosts :=
  ⟨sp, h.started + 1, Function.update h.node h.started a, insert h.started h.live⟩

/-- After the exit of node `i`. -/
def Hosts.release (h : Hosts) (i : Nat) : Hosts :=
  { h with space := (h.node i).destroy h.space, live := h.live.erase i }

theorem Hosts.enrol_node_self (h : Hosts) (a : ShmLinks) (sp : ShmSpace) : (h.enrol a sp).node h.started = a :=
  Function.update_self _ _ _

theorem Hosts.enrol_node_of_ne (h : Hosts) (a : ShmLinks) (sp : ShmSpace) {i : Nat} (hi : i ≠ h.started) :
    (h.enrol a sp).node i = h.node i := Function.update_of_ne hi _ _

/-- **One start or one exit.** -/
inductive HostAct.Step (h : Hosts) : HostAct → Hosts → Prop where
  | start {a : ShmLinks} {sp : ShmSpace} : ShmLinks.construct h.space = .ok (a, sp) → Step h .start (h.enrol a sp)
  | exit {i : Nat} : i ∈ h.live → Step h (.exit i) (h.release i)

/-- Both mappings of a node. -/
def ShmLinks.MapsTo (a : ShmLinks) (registry event : Nat) : Prop :=
  a.shm_.shm_.data_ = some registry ∧ a.event_notification_shm_.shm_.data_ = some event

/-- **All live nodes are attached to the same registry region and to the same event region.** -/
def Hosts.Shared (h : Hosts) : Prop := ∃ registry event, ∀ i ∈ h.live, (h.node i).MapsTo registry event

/-- The node that created the registry region. -/
def ShmLinks.IsCreator (a : ShmLinks) : Prop := a.shm_.shm_.is_owner_ = true

/-- **A node starts alone, or while the creator of the regions is live.** -/
def Hosts.CreatorLives (h : Hosts) : HostAct → Prop
  | .start => h.live = ∅ ∨ ∃ i ∈ h.live, (h.node i).IsCreator
  | .exit _ => True

/-- No node is live and the two names are free. -/
structure Hosts.Init (h : Hosts) : Prop where
  ok : h.space.Ok
  live : h.live = ∅
  registry : h.space.lookup SHM_MANAGER_NAME = none
  event : h.space.lookup EVENT_NOTIFICATION_SHM_NAME = none

/-- A node's mappings go by the two names, and the node owns both regions or neither. -/
structure ShmLinks.Linked (a : ShmLinks) (registry event : Nat) (owner : Bool) : Prop where
  mapsTo : a.MapsTo registry event
  registry_name : a.shm_.shm_.name_ = SHM_MANAGER_NAME
  event_name : a.event_notification_shm_.shm_.name_ = EVENT_NOTIFICATION_SHM_NAME
  registry_owner : a.shm_.shm_.is_owner_ = owner
  event_owner : a.event_notification_shm_.shm_.is_owner_ = owner

theorem names_ne : SHM_MANAGER_NAME ≠ EVENT_NOTIFICATION_SHM_NAME := by decide +kernel

/-- **Who holds the names.**  Either both are free and no live node is a creator, or both lead to the regions that all
live nodes share, and exactly one live node owns them. -/
inductive Hosts.Names (h : Hosts) (registry event : Nat) : Prop where
  | free : h.space.lookup SHM_MANAGER_NAME = none → h.space.lookup EVENT_NOTIFICATION_SHM_NAME = none →
      (∀ i ∈ h.live, (h.node i).Linked registry event false) → Names h registry event
  | held {k : Nat} : h.space.lookup SHM_MANAGER_NAME = some registry →
      h.space.lookup EVENT_NOTIFICATION_SHM_NAME = some event → k ∈ h.live → (h.node k).Linked registry event true →
      (∀ i ∈ h.live, i ≠ k → (h.node i).Linked registry event false) → Names h registry event

/-- What holds as long as no node starts among nodes that have outlived the creator. -/
structure Hosts.Sound (h : Hosts) : Prop where
  ok : h.space.Ok
  live_lt : ∀ i ∈ h.live, i < h.started
  names : ∃ registry event, h.Names registry event ∧ ∀ i ∈ h.live, registry < h.space.next ∧ event < h.space.next

theorem Hosts.Init.sound {h : Hosts} (hi : h.Init) : h.Sound := by
  have hnone : ∀ i, i ∉ h.live := fun i => by
    rw [hi.live]
    exact Finset.notMem_empty i
  exact ⟨hi.ok, fun i hm => absurd hm (hnone i), 0, 0,
    .free hi.registry hi.event (fun i hm => absurd hm (hnone i)), fun i hm => absurd hm (hnone i)⟩

theorem Hosts.Sound.shared {h : Hosts} (hs : h.Sound) : h.Shared := by
  obtain ⟨r, e, hn, -⟩ := hs.names
  refine ⟨r, e, fun i hi => ?_⟩
  cases hn with
  | free _ _ hl => exact (hl i hi).mapsTo
  | @held k _ _ hk hown hl =>
    by_cases hik : i = k
    · rw [hik]
      exact hown.mapsTo
    · exact (hl i hi hik).mapsTo

/-! ## Starts and exits on the name space -/

theorem construct_of_free {sp sp' : ShmSpace} {a : ShmLinks} (hok : sp.Ok) (hr : sp.lookup SHM_MANAGER_NAME = none)
    (he : sp.lookup EVENT_NOTIFICATION_SHM_NAME = none) (hc : ShmLinks.construct sp = .ok (a, sp')) :
    a.Linked (sp.next + 1) sp.next true ∧ sp'.Ok ∧ sp'.next = sp.next + 2 ∧
      sp'.lookup SHM_MANAGER_NAME = some (sp.next + 1) ∧ sp'.lookup EVENT_NOTIFICATION_SHM_NAME = some sp.next := by
  obtain ⟨a', sp₁, sp₂, hc', hev, hreg⟩ := construct_reached sp
  rw [hc] at hc'
  cases hc'
  generalize hm : a.event_notification_shm_.shm_ = m at hev
  generalize hm' : a.shm_.shm_ = m' at hreg
  cases hev with
  | opened h => rw [he] at h; cases h
  | created _ hcr =>
    obtain ⟨-, -, hnext, hself, -, hother, -⟩ := Posix.Space.create_eq_some hcr
    have hr₁ : sp₁.lookup SHM_MANAGER_NAME = none := by rw [hother _ names_ne, hr]
    cases hreg with
    | opened h => rw [hr₁] at h; cases h
    | created _ hcr' =>
      obtain ⟨-, -, hnext', hself', -, hother', -⟩ := Posix.Space.create_eq_some hcr'
      rw [hnext] at hself' hm' hnext'
      refine ⟨⟨⟨?_, ?_⟩, ?_, ?_, ?_, ?_⟩, (hok.create hcr).create hcr', hnext', hself', ?_⟩
      · rw [hm']
      · rw [hm]
      · rw [hm']
      · rw [hm]
      · rw [hm']
      · rw [hm]
      · rw [hother' _ names_ne.symm, hself]

theorem construct_of_held {sp sp' : ShmSpace} {a : ShmLinks} {registry event : Nat}
    (hr : sp.lookup SHM_MANAGER_NAME = some registry) (he : sp.lookup EVENT_NOTIFICATION_SHM_NAME = some event)
    (hc : ShmLinks.construct sp = .ok (a, sp')) : a.Linked registry event false ∧ sp' = sp := by
  obtain ⟨a', sp₁, sp₂, hc', hev, hreg⟩ := construct_reached sp
  rw [hc] at hc'
  cases hc'
  generalize hm : a.event_notification_shm_.shm_ = m at hev
  generalize hm' : a.shm_.shm_ = m' at hreg
  cases hev with
  | created h _ => rw [he] at h; cases h
  | opened h =>
    rw [he] at h
    cases h
    cases hreg with
    | created h _ => rw [hr] at h; cases h
    | opened h =>
      rw [hr] at h
      cases h
      refine ⟨⟨⟨?_, ?_⟩, ?_, ?_, ?_, ?_⟩, rfl⟩
      · rw [hm']
      · rw [hm]
      · rw [hm']
      · rw [hm]
      · rw [hm']
      · rw [hm]

theorem destroy_of_owner {a : ShmLinks} {registry event : Nat} (h : a.Linked registry event true) (sp : ShmSpace) :
    a.destroy sp = (sp.unlink EVENT_NOTIFICATION_SHM_NAME).unlink SHM_MANAGER_NAME := by
  unfold ShmLinks.destroy EventNotificationShm.destroy SharedMemory.destroy SharedMemory.unlink SharedMemory.close
  rw [if_pos h.registry_owner, if_pos h.event_owner, h.registry_name, h.event_name]

theorem destroy_of_guest {a : ShmLinks} {registry event : Nat} (h : a.Linked registry event false) (sp : ShmSpace) :
    a.destroy sp = sp := by
  unfold ShmLinks.destroy EventNotificationShm.destroy SharedMemory.destroy SharedMemory.unlink SharedMemory.close
  rw [if_neg (by rw [h.registry_owner]; exact Bool.false_ne_true),
    if_neg (by rw [h.event_owner]; exact Bool.false_ne_true)]

/-! ## Runs -/

/-- **One start, alone or while the creator lives.** -/
theorem Hosts.Sound.start {h h' : Hosts} (hs : h.Sound) (hg : h.CreatorLives .start)
    (hstep : HostAct.Step h .start h') : h'.Sound := by
  obtain ⟨hok, hlt, r, e, hn, hnext⟩ := hs
  cases hstep with
  | @start a sp hc =>
    have hold : ∀ i ∈ h.live, (h.enrol a sp).node i = h.node i := fun i hi =>
      h.enrol_node_of_ne a sp (Nat.ne_of_lt (hlt i hi))
    have hlive : ∀ i ∈ (h.enrol a sp).live, i < h.started + 1 := fun i hi => by
      rcases Finset.mem_insert.1 hi with rfl | hi
      · exact Nat.lt_succ_self _
      · exact Nat.lt_succ_of_lt (hlt i hi)
    cases hn with
    | free hr he hl =>
      have hnone : h.live = ∅ := by
        rcases hg with hnone | ⟨i, hi, hown⟩
        · exact hnone
        · have hno := (hl i hi).registry_owner
          rw [show (h.node i).shm_.shm_.is_owner_ = true from hown] at hno
          cases hno
      obtain ⟨hlink, hok', hnext', hr', he'⟩ := construct_of_free hok hr he hc
      refine ⟨hok', hlive, _, _, .held (k := h.started) hr' he' (Finset.mem_insert_self _ _) ?_ ?_, fun i _ => ?_⟩
      · rw [Hosts.enrol_node_self]
        exact hlink
      · intro i hi hne
        have hmem := Finset.mem_of_mem_insert_of_ne hi hne
        rw [hnone] at hmem
        exact absurd hmem (Finset.notMem_empty i)
      · show _ < sp.next ∧ _ < sp.next
        omega
    | @held k hr he hk hown hl =>
      obtain ⟨hlink, rfl⟩ := construct_of_held hr he hc
      have hlts := hnext k hk
      refine ⟨hok, hlive, r, e, .held (k := k) hr he (Finset.mem_insert_of_mem hk) ?_ ?_, fun i _ => hlts⟩
      · rw [hold k hk]
        exact hown
      · intro i hi hne
        rcases Finset.mem_insert.1 hi with rfl | hi
        · rw [Hosts.enrol_node_self]
          exact hlink
        · rw [hold i hi]
          exact hl i hi hne

/-- **One exit**: the creator's frees the names. -/
theorem Hosts.Sound.exit {h h' : Hosts} (hs : h.Sound) {i : Nat} (hstep : HostAct.Step h (.exit i) h') :
    h'.Sound := by
  obtain ⟨hok, hlt, r, e, hn, hnext⟩ := hs
  cases hstep with
  | exit hi =>
    have hlive : ∀ j ∈ h.live.erase i, j < h.started := fun j hj => hlt j (Finset.mem_of_mem_erase hj)
    cases hn with
    | free hr he hl =>
      rw [Hosts.release, destroy_of_guest (hl i hi)]
      exact ⟨hok, hlive, r, e, .free hr he (fun j hj => hl j (Finset.mem_of_mem_erase hj)),
        fun j hj => hnext j (Finset.mem_of_mem_erase hj)⟩
    | @held k hr he hk hown hl =>
      by_cases hik : i = k
      · rw [hik, Hosts.release, destroy_of_owner hown]
        refine ⟨(hok.unlink _).unlink _, fun j hj => hlt j (Finset.mem_of_mem_erase hj), r, e, .free ?_ ?_ ?_,
          fun j hj => hnext j (Finset.mem_of_mem_erase hj)⟩
        · exact Posix.Space.lookup_unlink_self _ _
        · show ((h.space.unlink _).unlink _).lookup _ = none
          rw [Posix.Space.lookup_unlink_of_ne _ names_ne.symm]
          exact Posix.Space.lookup_unlink_self _ _
        · exact fun j hj => hl j (Finset.mem_of_mem_erase hj) (Finset.ne_of_mem_erase hj)
      · rw [Hosts.release, destroy_of_guest (hl i hi hik)]
        exact ⟨hok, hlive, r, e, .held (k := k) hr he (Finset.mem_erase.2 ⟨fun hki => hik hki.symm, hk⟩) hown
          (fun j hj => hl j (Finset.mem_of_mem_erase hj)), fun j hj => hnext j (Finset.mem_of_mem_erase hj)⟩

/-- **All live nodes share the regions** in every state of every run in which no node starts among nodes that have
outlived the creator. -/
theorem shared_of_run {h₀ h : Hosts} {as : List HostAct} (hi : h₀.Init)
    (hrun : Trans.Run HostAct.Step Hosts.CreatorLives h₀ as h) : h.Shared := by
  refine (hrun.invariant (P := Hosts.Sound) hi.sound ?_).shared
  rintro h a h' hs hg hstep
  cases a with
  | start => exact hs.start hg hstep
  | exit i => exact hs.exit hstep

/-- **A node that starts among nodes that have outlived the creator** gets regions of its own. -/
theorem not_shared_of_start {h h' : Hosts} (hs : h.Sound) (hg : ¬ h.CreatorLives .start)
    (hstep : HostAct.Step h .start h') : ¬ h'.Shared := by
  obtain ⟨hok, hlt, r, e, hn, hnext⟩ := hs
  obtain ⟨hne, hcr⟩ := not_or.1 hg
  obtain ⟨j, hj⟩ := Finset.nonempty_iff_ne_empty.2 hne
  cases hn with
  | @held k _ _ hk hown _ => exact absurd ⟨k, hk, hown.registry_owner⟩ hcr
  | free hr he hl =>
    cases hstep with
    | @start a sp hc =>
      obtain ⟨hlink, -⟩ := construct_of_free hok hr he hc
      rintro ⟨r', e', hall⟩
      have h₁ := (hall h.started (Finset.mem_insert_self _ _)).1
      have h₂ := (hall j (Finset.mem_insert_of_mem hj)).1
      rw [Hosts.enrol_node_self, hlink.mapsTo.1] at h₁
      rw [h.enrol_node_of_ne a sp (Nat.ne_of_lt (hlt j hj)), (hl j hj).mapsTo.1] at h₂
      cases h₁
      cases h₂
      exact absurd (hnext j hj).1 (by omega)

/-! ## Two runs -/

/-- A machine without any shared memory. -/
def noHosts : Hosts :=
  ⟨⟨fun _ => none, fun _ => Region.fresh 0, 0⟩, 0,
    fun _ => ⟨⟨⟨[], 0, none, false⟩, false⟩, ⟨⟨[], 0, none, false⟩, false⟩⟩, ∅⟩

theorem noHosts_init : noHosts.Init := ⟨fun _ _ h => (by cases h), rfl, rfl, rfl⟩

theorem first_started : ∃ a sp, HostAct.Step noHosts .start (noHosts.enrol a sp) ∧ a.Linked 1 0 true ∧
    sp.lookup SHM_MANAGER_NAME = some 1 ∧ sp.lookup EVENT_NOTIFICATION_SHM_NAME = some 0 := by
  obtain ⟨a, -, sp, hc, -, -⟩ := construct_reached noHosts.space
  obtain ⟨hlink, -, -, hr, he⟩ := construct_of_free noHosts_init.ok noHosts_init.registry noHosts_init.event hc
  exact ⟨a, sp, .start hc, hlink, hr, he⟩

/-- The second node opens what the first has created. -/
theorem second_started : ∃ a b sp, HostAct.Step noHosts .start (noHosts.enrol a sp) ∧
    HostAct.Step (noHosts.enrol a sp) .start ((noHosts.enrol a sp).enrol b sp) ∧
    (noHosts.enrol a sp).CreatorLives .start ∧ b.Linked 1 0 false := by
  obtain ⟨a, sp, hstep, hlink, hr, he⟩ := first_started
  obtain ⟨b, -, sp₂, hc, -, -⟩ := construct_reached sp
  obtain ⟨hguest, rfl⟩ := construct_of_held hr he hc
  exact ⟨a, b, sp₂, hstep, .start hc, .inr ⟨0, Finset.mem_insert_self _ _, hlink.registry_owner⟩, hguest⟩

/-- Two nodes start, and the second maps what the first has created. -/
theorem shared_of_first : ∃ h : Hosts, h.live = {1, 0} ∧ ¬ (h.node 1).IsCreator ∧ h.Shared := by
  obtain ⟨a, b, sp, hstep₁, hstep₂, hcreator, hguest⟩ := second_started
  have hg : noHosts.CreatorLives .start := Or.inl rfl
  refine ⟨_, rfl, fun hown => ?_, shared_of_run noHosts_init ((Trans.Run.single hg hstep₁).snoc hcreator hstep₂)⟩
  have hno := hguest.registry_owner
  rw [← (noHosts.enrol a sp).enrol_node_self b sp] at hno
  exact Bool.false_ne_true (hno.symm.trans hown)

/-- A node creates the regions, a second opens them, the first exits and a third starts: the second and the third
have different regions. -/
theorem shared_not_always : ¬ ∀ (h₀ h : Hosts) (as : List HostAct), h₀.Init →
    Trans.Run HostAct.Step Trans.free h₀ as h → h.Shared := by
  intro h
  obtain ⟨a, b, sp₂, hstep₁, hstep₂, hcreator, hguest⟩ := second_started
  have hs₁ := noHosts_init.sound.start (Or.inl rfl) hstep₁
  have hs₂ := hs₁.start hcreator hstep₂
  generalize hh₂ : (noHosts.enrol a sp₂).enrol b sp₂ = h₂ at hstep₂ hs₂
  have hlive₂ : h₂.live = {1, 0} := by rw [← hh₂]; rfl
  have hnode₂ : h₂.node 1 = b := by rw [← hh₂]; exact (noHosts.enrol a sp₂).enrol_node_self b sp₂
  have hstep₃ : HostAct.Step h₂ (.exit 0) (h₂.release 0) := .exit (by rw [hlive₂]; decide)
  -- only the second is left, and it is no creator
  have hlive₃ : (h₂.release 0).live = {1} := by
    show h₂.live.erase 0 = {1}
    rw [hlive₂]
    decide
  have hnot : ¬ (h₂.release 0).CreatorLives .start := by
    rintro (hnone | ⟨i, hi, hown⟩)
    · rw [hlive₃] at hnone
      exact absurd hnone (by decide)
    · rw [hlive₃] at hi
      cases Finset.mem_singleton.1 hi
      have hno := hguest.registry_owner
      rw [← hnode₂, show (h₂.node 1).shm_.shm_.is_owner_ = true from hown] at hno
      cases hno
  obtain ⟨c, -, sp₄, hc₄, -, -⟩ := construct_reached (h₂.release 0).space
  have hrun : Trans.Run HostAct.Step Trans.free noHosts _ ((h₂.release 0).enrol c sp₄) :=
    .snoc (.snoc (.snoc (.single trivial hstep₁) trivial hstep₂) trivial hstep₃) trivial (.start hc₄)
  exact not_shared_of_start (hs₂.exit hstep₃) hnot (.start hc₄) (h _ _ _ noHosts_init hrun)

end MiniRos2
