import Mathlib.Data.List.Basic

/-!
# Grids as rows of cells

A grid is a list of rows, and nothing makes the rows equally long. Reading and
writing a cell fail outside of it. `Covers` says when a column count is good
for every row, and `covers_iff_cell` reads it as the absence of a missing cell;
a write keeps the shape, so it keeps every covering.
-/

namespace Grid

variable {α : Type*}

def cell? (g : List (List α)) (row col : Nat) : Option α :=
  g[row]?.bind (·[col]?)

/-- The grid with one cell replaced, when that cell is there. -/
def setCell? (g : List (List α)) (row col : Nat) (value : α) :
    Option (List (List α)) :=
  (cell? g row col).map fun _ => g.modify row (·.set col value)

/-- Every row has at least this many columns. -/
def Covers (g : List (List α)) (cols : Nat) : Prop :=
  ∀ row ∈ g, cols ≤ row.length

theorem cell?_isSome {g : List (List α)} {row col : Nat} :
    (cell? g row col).isSome ↔ ∃ r, g[row]? = some r ∧ col < r.length := by
  unfold cell?
  cases h : g[row]? with
  | none => simp
  | some r =>
      by_cases hcol : col < r.length
      · simp [hcol]
      · simp [hcol]

/-- A column count covers a grid when no cell under it is missing. -/
theorem covers_iff_cell {g : List (List α)} {cols : Nat} :
    Covers g cols ↔ ∀ row col, row < g.length → col < cols →
      (cell? g row col).isSome := by
  refine ⟨fun h => ?_, fun h => ?_⟩
  · intro row col hrow hcol
    have hlen := h g[row] (List.getElem_mem hrow)
    exact cell?_isSome.mpr
      ⟨g[row], List.getElem?_eq_getElem hrow, Nat.lt_of_lt_of_le hcol hlen⟩
  · intro r hr
    obtain ⟨row, hrow, rfl⟩ := List.getElem_of_mem hr
    rcases Nat.lt_or_ge g[row].length cols with hlt | hge
    · obtain ⟨r', hr', hcol⟩ := cell?_isSome.mp (h row _ hrow hlt)
      rw [List.getElem?_eq_getElem hrow] at hr'
      obtain rfl : g[row] = r' := Option.some.inj hr'
      exact absurd hcol (Nat.lt_irrefl _)
    · exact hge

theorem setCell?_isSome {g : List (List α)} {row col : Nat} {value : α} :
    (setCell? g row col value).isSome = (cell? g row col).isSome := by
  rw [setCell?, Option.isSome_map]

/-- A write changes no row's length, and adds or drops no row. -/
theorem setCell?_shape {g g' : List (List α)} {row col : Nat} {value : α}
    (h : setCell? g row col value = some g') :
    g'.map List.length = g.map List.length := by
  obtain ⟨_, -, rfl⟩ := Option.map_eq_some_iff.mp h
  apply List.ext_getElem?
  intro i
  simp only [List.getElem?_map, List.getElem?_modify]
  cases g[i]? with
  | none => rfl
  | some r =>
      by_cases hi : row = i <;> simp [hi]

end Grid
