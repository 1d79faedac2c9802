import OnChainPoker.Foundation.Store
import OnChainPoker.Poker.Types

/-!
# Keeper state of x/poker

The stored tables, the counters beside them and the external keepers.  Every
load and every store of a table runs `normalizeTable`; of its repairs only the
ones that the types do not already enforce are left: a seat without a player
holds nothing, and hand numbers start at one.

The bank is external code.  It moves exactly the requested amount or fails, and
its state is otherwise opaque.  `Block` carries what a valid block header
promises about its time.
-/

namespace OnChainPoker.Poker

open Foundation

structure BankKeeper (Addr : Type) where
  Balances : Type
  moduleBalance : Balances → Nat
  sendCoinsFromAccountToModule : Balances → Addr → Nat → Except Err Balances
  sendCoinsFromModuleToAccount : Balances → Addr → Nat → Except Err Balances
  sendCoinsFromModuleToFeeCollector : Balances → Nat → Except Err Balances
  fromAccount_moves : ∀ {b b' addr amount},
    sendCoinsFromAccountToModule b addr amount = .ok b' →
      moduleBalance b' = moduleBalance b + amount
  toAccount_moves : ∀ {b b' addr amount},
    sendCoinsFromModuleToAccount b addr amount = .ok b' →
      moduleBalance b' + amount = moduleBalance b
  toFeeCollector_moves : ∀ {b b' amount},
    sendCoinsFromModuleToFeeCollector b amount = .ok b' →
      moduleBalance b' + amount = moduleBalance b

/-- The code the module calls and does not contain. -/
structure Env where
  Addr : Type
  accAddressFromBech32 : String → Option Addr
  canonicalPoint : Bytes → Bool
  bank : BankKeeper Addr

structure Block where
  height : Int
  unix : Int
  unix_pos : 0 < unix
  unix_le : unix ≤ 253402300799

theorem thousand_pos : (0 : Int) < 1000 := by decide

theorem thousand_le : (1000 : Int) ≤ 253402300799 := by decide

structure State (env : Env) where
  balances : env.bank.Balances
  nextTableId : Nat
  tables : Store Nat Table
  lastHandEndedHeight : Store Nat Int

def State.genesis (env : Env) (balances : env.bank.Balances) : State env :=
  ⟨balances, 1, ∅, ∅⟩

/-! ## Tables -/

def normalizeSeat (s : Seat) : Seat :=
  if s.player = "" then { s with pk := [], stack := 0, bond := 0 } else s

def normalizeTable (t : Table) : Table :=
  { t with
    seats := fun i => normalizeSeat (t.seats i)
    nextHandId := if t.nextHandId = 0 then 1 else t.nextHandId }

variable {env : Env}

def State.getTable (s : State env) (tableID : Nat) : Option Table :=
  (s.tables.lookup tableID).map normalizeTable

def State.setTable (s : State env) (t : Table) : State env :=
  { s with tables := s.tables.insert t.id (normalizeTable t) }

def State.getLastHandEndedHeight (s : State env) (tableID : Nat) : Int :=
  (s.lastHandEndedHeight.lookup tableID).getD 0

@[simp] theorem normalizeSeat_player (s : Seat) : (normalizeSeat s).player = s.player := by
  unfold normalizeSeat
  split <;> rfl

@[simp] theorem normalizeSeat_hole (s : Seat) : (normalizeSeat s).hole = s.hole := by
  unfold normalizeSeat
  split <;> rfl

theorem normalizeSeat_idem (s : Seat) : normalizeSeat (normalizeSeat s) = normalizeSeat s := by
  by_cases hplayer : s.player = "" <;> simp [normalizeSeat, hplayer]

@[simp] theorem normalizeTable_idem (t : Table) :
    normalizeTable (normalizeTable t) = normalizeTable t := by
  simp only [normalizeTable, normalizeSeat_idem]
  split <;> simp_all

theorem normalizeTable_of_getTable {s : State env} {tableID : Nat} {t : Table}
    (hget : s.getTable tableID = some t) : normalizeTable t = t := by
  simp only [State.getTable, Option.map_eq_some_iff] at hget
  obtain ⟨stored, _, rfl⟩ := hget
  exact normalizeTable_idem stored

/-! ## A concrete environment -/

def payFrom (balance amount : Nat) : Except Err Nat :=
  if amount ≤ balance then .ok (balance - amount)
  else .error ⟨.plain, "insufficient funds"⟩

theorem payFrom_moves {balance balance' amount : Nat}
    (hok : payFrom balance amount = .ok balance') :
    balance' + amount = balance := by
  unfold payFrom at hok
  split at hok
  · cases hok
    omega
  · cases hok

/-- A bank whose accounts never run dry; only the module balance is kept. -/
def ledgerBank : BankKeeper String where
  Balances := Nat
  moduleBalance := id
  sendCoinsFromAccountToModule := fun balance _ amount => .ok (balance + amount)
  sendCoinsFromModuleToAccount := fun balance _ amount => payFrom balance amount
  sendCoinsFromModuleToFeeCollector := payFrom
  fromAccount_moves := fun hok => (Except.ok.inj hok).symm
  toAccount_moves := payFrom_moves
  toFeeCollector_moves := payFrom_moves

def ledgerEnv : Env where
  Addr := String
  accAddressFromBech32 := some
  canonicalPoint := fun _ => true
  bank := ledgerBank

end OnChainPoker.Poker
