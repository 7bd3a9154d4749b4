import Mathlib.Data.List.Basic
import Mathlib.Data.Nat.Notation
import WaterStructure.Library.NestedLoop

/-!
# Reading a file at a position

A reader takes bytes of a file from a position on and moves the position behind them, or fails. Numbers
have their low bytes first. A loop that reads items and does something with each of them can be
told apart into the reading and the doing.
-/

namespace SeekReader

variable {α β : Type}

abbrev File : Type := List UInt8

def Reader (α : Type) : Type := File → ℕ → Except String (α × ℕ)

instance : Monad Reader where
  pure a := fun _ position => .ok (a, position)
  bind r next := fun file position =>
    match r file position with
    | .error error => .error error
    | .ok (a, position) => next a file position

/-- A part that reads nothing. -/
def lift (result : Except String α) : Reader α := fun _ position =>
  result.map fun a => (a, position)

/-- The next bytes; `truncated` is the error of a position from which there are too few. -/
def take (truncated : ℕ → String) (length : ℕ) : Reader (List UInt8) := fun file position =>
  if position > file.length ∨ length > file.length - position then .error (truncated position)
  else .ok ((file.drop position).take length, position + length)

/-- The number with these bytes, the low ones first. -/
def little : List UInt8 → ℕ
  | [] => 0
  | byte :: rest => byte.toNat + 256 * little rest

def number (truncated : ℕ → String) (length : ℕ) : Reader ℕ := do
  let bytes ← take truncated length
  return little bytes

/-- A number in two's complement. -/
def signed16 (truncated : ℕ → String) : Reader ℤ := do
  let value ← number truncated 2
  return Int.bmod value 65536

/-- What a reader gives at a position. -/
def run (file : File) (position : ℕ) (r : Reader α) : Except String α :=
  (r file position).map Prod.fst

/-- Read so many items. -/
def repeated (r : Reader α) : ℕ → Reader (List α)
  | 0 => pure []
  | count + 1 => do
    let a ← r
    let rest ← repeated r count
    return a :: rest

/-- Read so many items and do something with each of them. -/
def processed {σ : Type} (r : Reader α) (step : σ → α → Except String σ) : ℕ → σ → Reader σ
  | 0, s => pure s
  | count + 1, s => do
    let a ← r
    let s ← lift (step s a)
    processed r step count s

theorem bind_eq (r : Reader α) (next : α → Reader β) (file : File) (position : ℕ) :
    (r >>= next) file position = match r file position with
      | .error error => .error error
      | .ok (a, position) => next a file position := rfl

variable {r : Reader α} {file : File} {position : ℕ} {a : α} {final : ℕ}

theorem bind_of_ok {next : ℕ} (h : r file position = .ok (a, next)) (rest : α → Reader β) :
    (r >>= rest) file position = rest a file next := by
  rw [bind_eq, h]

/-- A reader that succeeded has succeeded in its first part and in the rest. -/
theorem exists_of_bind {rest : α → Reader β} {b : β} (h : (r >>= rest) file position = .ok (b, final)) :
    ∃ a next, r file position = .ok (a, next) ∧ rest a file next = .ok (b, final) := by
  rw [bind_eq] at h
  cases hr : r file position with
  | error error =>
    rw [hr] at h
    cases h
  | ok found =>
    rw [hr] at h
    exact ⟨found.1, found.2, rfl, h⟩

theorem run_eq_ok (h : run file position r = .ok a) : ∃ next, r file position = .ok (a, next) := by
  obtain ⟨found, hfound, rfl⟩ := NestedLoop.exists_of_map_ok h
  exact ⟨found.2, hfound⟩

theorem run_of_ok {file : File} {position next : ℕ} {r : Reader α} {a : α}
    (h : r file position = .ok (a, next)) : run file position r = .ok a := by
  rw [run, h]
  rfl

theorem lift_ok {result : Except String α} (h : lift result file position = .ok (a, final)) :
    result = .ok a ∧ final = position := by
  obtain ⟨b, hb, hpair⟩ := NestedLoop.exists_of_map_ok h
  cases hpair
  exact ⟨hb, rfl⟩

theorem number_of_le {truncated : ℕ → String} {length : ℕ} {file : List UInt8}
    (h : position + length ≤ file.length) : number truncated length file position =
      .ok (little ((file.drop position).take length), position + length) := by
  rw [number, bind_eq, take, if_neg (by omega)]
  rfl

theorem signed16_ok {truncated : ℕ → String} {value : ℤ}
    (h : signed16 truncated file position = .ok (value, final)) : -32768 ≤ value ∧ value < 32768 := by
  obtain ⟨n, next, -, hn⟩ := exists_of_bind h
  obtain ⟨hvalue, -⟩ := Prod.mk.inj (Except.ok.inj hn)
  have hlow := @Int.le_bmod n 65536 (by decide)
  have hhigh := @Int.bmod_lt n 65536 (by decide)
  omega

/-- Numbers of one length that stand one after the other. -/
theorem repeated_number {truncated : ℕ → String} {length : ℕ} {file : List UInt8} {count position : ℕ}
    (h : position + count * length ≤ file.length) :
    repeated (number truncated length) count file position =
      .ok ((List.range count).map fun index =>
        little ((file.drop (position + index * length)).take length), position + count * length) := by
  induction count generalizing position with
  | zero =>
    rw [Nat.zero_mul]
    rfl
  | succ count ih =>
    rw [Nat.succ_mul] at h
    have hrest := @ih (position + length) (by omega)
    rw [repeated, bind_of_ok (number_of_le (by omega)), bind_of_ok hrest, List.range_succ_eq_map,
      List.map_cons, List.map_map, Nat.zero_mul, Nat.add_zero, Nat.succ_mul, Nat.add_comm (count * length),
      ← Nat.add_assoc]
    have hshift : (List.range count).map (fun index =>
        little ((file.drop (position + length + index * length)).take length)) =
        (List.range count).map ((fun index =>
          little ((file.drop (position + index * length)).take length)) ∘ Nat.succ) := by
      refine List.map_congr_left fun index _ => ?_
      rw [Function.comp_apply, Nat.succ_mul, Nat.add_comm (index * length), ← Nat.add_assoc]
    rw [hshift]
    rfl

/-- Reading and doing, told apart. -/
theorem processed_ok {σ : Type} {step : σ → α → Except String σ} {count : ℕ} {s t : σ}
    (h : processed r step count s file position = .ok (t, final)) :
    ∃ items, repeated r count file position = .ok (items, final) ∧ items.foldlM step s = .ok t := by
  induction count generalizing s position with
  | zero =>
    cases h
    exact ⟨[], rfl, rfl⟩
  | succ count ih =>
    obtain ⟨a, next, ha, hafter⟩ := exists_of_bind h
    obtain ⟨u, next', hu, hrest⟩ := exists_of_bind hafter
    obtain ⟨hstep, rfl⟩ := lift_ok hu
    obtain ⟨items, hitems, hfold⟩ := ih hrest
    refine ⟨a :: items, ?_, ?_⟩
    · rw [repeated, bind_of_ok ha, bind_of_ok hitems]
      rfl
    · rw [List.foldlM_cons, hstep]
      exact hfold

/-- What holds of every item that can be read holds of all items. -/
theorem forall_of_repeated {P : α → Prop} (hr : ∀ position a next, r file position = .ok (a, next) → P a)
    {count : ℕ} {items : List α} (h : repeated r count file position = .ok (items, final)) :
    ∀ item ∈ items, P item := by
  induction count generalizing position items with
  | zero =>
    cases h
    exact fun _ hitem => absurd hitem List.not_mem_nil
  | succ count ih =>
    obtain ⟨a, next, ha, h⟩ := exists_of_bind h
    obtain ⟨rest, next', hrest, h⟩ := exists_of_bind h
    cases h
    intro item hitem
    rcases List.mem_cons.mp hitem with rfl | hitem
    · exact hr _ _ _ ha
    · exact ih hrest item hitem

end SeekReader
