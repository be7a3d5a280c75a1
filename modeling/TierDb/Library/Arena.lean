import Mathlib.Data.List.Nodup
import Mathlib.Data.List.Perm.Basic

/-! Memory given out cell by cell. An address is given out once; a cell is read until it is
freed, and an address that is not live can be neither read nor freed. -/
namespace Memory

structure Arena (α : Type) where
  live : List (Nat × α)
  next : Nat
  fresh : ∀ cell ∈ live, cell.1 < next
  distinct : (live.map Prod.fst).Nodup

variable {α : Type}

namespace Arena

def empty : Arena α := ⟨[],0,fun _ member => absurd member List.not_mem_nil,List.nodup_nil⟩

def addresses (arena : Arena α) : List Nat := arena.live.map Prod.fst

def alloc (arena : Arena α) (value : α) : Arena α where
  live := (arena.next,value) :: arena.live
  next := arena.next + 1
  fresh := by
    intro cell member
    rcases List.mem_cons.mp member with rfl | older
    · exact Nat.lt_succ_self _
    · exact Nat.lt_succ_of_lt (arena.fresh cell older)
  distinct := by
    refine List.nodup_cons.mpr ⟨fun member => ?_,arena.distinct⟩
    obtain ⟨cell,older,same⟩ := List.mem_map.mp member
    have below := arena.fresh cell older
    omega

def read (arena : Arena α) (address : Nat) : Option α :=
  (arena.live.find? (·.1 = address)).map Prod.snd

/-- `none` is a free of an address that is not live. -/
def free (arena : Arena α) (address : Nat) : Option (Arena α) :=
  if address ∈ arena.addresses then
    some {
      live := arena.live.filter (·.1 ≠ address)
      next := arena.next
      fresh := fun cell member => arena.fresh cell (List.mem_of_mem_filter member)
      distinct := arena.distinct.sublist (List.filter_sublist.map _) }
  else none

/-- The address of a cell that is live no more. -/
def skip (arena : Arena α) : Arena α :=
  { arena with
    next := arena.next + 1
    fresh := fun cell member => Nat.lt_succ_of_lt (arena.fresh cell member) }

variable {arena : Arena α}

theorem next_not_live : arena.next ∉ arena.addresses := by
  intro member
  obtain ⟨cell,older,same⟩ := List.mem_map.mp member
  have below := arena.fresh cell older
  omega

@[simp] theorem addresses_alloc (value : α) :
    (arena.alloc value).addresses = arena.next :: arena.addresses := rfl

@[simp] theorem addresses_skip : arena.skip.addresses = arena.addresses := rfl

@[simp] theorem read_alloc (value : α) : (arena.alloc value).read arena.next = some value := by
  simp [alloc, read]

theorem read_alloc_other (value : α) {address : Nat} (older : address ∈ arena.addresses) :
    (arena.alloc value).read address = arena.read address := by
  have apart : arena.next ≠ address := fun same => next_not_live (same ▸ older)
  simp [alloc, read, apart]

/-- A cell that is freed where it was made leaves nothing but its address. -/
@[simp] theorem free_alloc (value : α) : (arena.alloc value).free arena.next = some arena.skip := by
  have kept : ∀ address value, (address,value) ∈ arena.live → ¬address = arena.next := by
    intro address value member
    have below := arena.fresh _ member
    simp only at below
    omega
  simpa [free, addresses, alloc, skip] using kept

theorem mem_of_read {address : Nat} {value : α} (found : arena.read address = some value) :
    address ∈ arena.addresses := by
  obtain ⟨cell,hit,_⟩ := Option.map_eq_some_iff.mp found
  have same : cell.1 = address := by simpa using List.find?_some hit
  exact same ▸ List.mem_map_of_mem (List.mem_of_find?_eq_some hit)

/-- A live cell is freed; the other cells stay as they are. -/
theorem free_live {address : Nat} (live : address ∈ arena.addresses) :
    ∃ freed, arena.free address = some freed ∧
      freed.addresses = arena.addresses.erase address ∧
      ∀ other, other ≠ address → freed.read other = arena.read other := by
  refine ⟨_,if_pos live,?_,fun other apart => ?_⟩
  · have split : (arena.live.filter (·.1 ≠ address)).map Prod.fst =
        arena.addresses.filter (· ≠ address) := by
      simp [addresses, List.filter_map, Function.comp_def]
    have erased : arena.addresses.erase address = arena.addresses.filter (· != address) :=
      List.Nodup.erase_eq_filter arena.distinct address
    rw [erased]
    refine split.trans (List.filter_congr fun other _ => ?_)
    simp [bne, beq_eq_decide]
  · simp only [read, List.find?_filter]
    congr 2
    funext cell
    by_cases same : cell.1 = other <;> simp [same, apart]

end Arena

end Memory
