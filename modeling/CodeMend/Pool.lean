/-!
# Pools of reusable objects

Walkers are reused instead of built anew.  An object is cleared when it is handed out and again when
it comes back, and a pool keeps only so many idle ones.  An object in use when something broke down
never comes back.
-/

namespace CodeMend

/-- The idle objects, the one that came back last first. -/
structure Pool (α : Type) where
  idle : List α := []

namespace Pool

/-- How many idle objects are kept. -/
def maxIdle : Nat := 8

/-- The number of idle objects. -/
def idleCount {α : Type} (p : Pool α) : Nat := p.idle.length

/-- Hands out a cleared object: the one that came back last, or a new one. -/
def checkout {α : Type} (fresh : α) (reset : α → α) (p : Pool α) : α × Pool α :=
  match p.idle with
  | a :: rest => (reset a, ⟨rest⟩)
  | [] => (reset fresh, p)

/-- Takes an object back, cleared; one too many is dropped. -/
def giveBack {α : Type} (reset : α → α) (a : α) (p : Pool α) : Pool α :=
  if p.idle.length < maxIdle then ⟨reset a :: p.idle⟩ else p

end Pool

/-- A pool with the objects that were handed out, by number. -/
structure Loans (α : Type) where
  pool : Pool α := {}
  /-- The object of each number, unless it is gone. -/
  lent : List (Option α) := []

namespace Loans

variable {α : Type}

/-- Hands out a cleared object under the next number. -/
def checkout (l : Loans α) (fresh : α) (reset : α → α) : α × Loans α :=
  let (a, pool) := l.pool.checkout fresh reset
  (a, ⟨pool, l.lent ++ [some a]⟩)

/-- The object with a number. -/
def get? (l : Loans α) (n : Nat) : Option α := (l.lent[n]?).bind id

/-- Puts another object in the place of the one with a number. -/
def set (l : Loans α) (n : Nat) (a : α) : Loans α := { l with lent := l.lent.set n (some a) }

/-- The object with a number never comes back. -/
def abandon (l : Loans α) (n : Nat) : Loans α := { l with lent := l.lent.set n none }

/-- The object with a number comes back. -/
def giveBack (l : Loans α) (reset : α → α) (n : Nat) : Loans α :=
  match l.get? n with
  | some a => { l.abandon n with pool := l.pool.giveBack reset a }
  | none => l

end Loans

end CodeMend
