import Calculator.Error

namespace Calculator

namespace OperatorTable

/-- The definitions that a table holds for one position. -/
abbrev Placed (table : OperatorTable) (position : Position) :=
  { d : Operator // d ∈ table.definitions ∧ d.position = position }

/-- No symbol may stand both between operands and after one. -/
def Separated (table : OperatorTable) : Prop :=
  ∀ symbol, table.supports symbol .between = true → table.supports symbol .after = false

/-- No two definitions share a symbol and a position. -/
def Unambiguous (table : OperatorTable) : Prop :=
  table.definitions.Pairwise fun d e => ¬ (d.symbol = e.symbol ∧ d.position = e.position)

section Finding

variable {table : OperatorTable} {symbol : String} {position : Position}

/-- The definitions with a symbol in a position are all that decides whether it is supported. -/
theorem supports_iff : table.supports symbol position = true ↔
    ∃ d ∈ table.definitions, d.symbol = symbol ∧ d.position = position := by
  simp [supports, candidates, List.filter_eq_nil_iff]

theorem mem_candidates {d : Operator} : d ∈ table.candidates symbol position ↔
    d ∈ table.definitions ∧ d.symbol = symbol ∧ d.position = position := by
  simp [candidates]

theorem candidates_of_find {d : Operator} (h : table.find symbol position = .ok d) :
    table.candidates symbol position = [d] := by
  unfold find at h
  split at h <;> simp_all

theorem placed_of_find {d : Operator} (h : table.find symbol position = .ok d) :
    d ∈ table.definitions ∧ d.position = position := by
  have found := mem_candidates.mp (candidates_of_find h ▸ List.mem_singleton_self d)
  exact ⟨found.1, found.2.2⟩

/-- What is supported has a definition that can be found. -/
theorem exists_find (unambiguous : table.Unambiguous)
    (h : table.supports symbol position = true) : ∃ d, table.find symbol position = .ok d := by
  have apart : (table.candidates symbol position).Pairwise fun d e =>
      ¬ (d.symbol = e.symbol ∧ d.position = e.position) := unambiguous.filter _
  unfold find
  match hc : table.candidates symbol position with
  | [] => simp [supports, hc] at h
  | [d] => exact ⟨d, rfl⟩
  | d :: e :: later =>
    obtain ⟨-, ds, dp⟩ := mem_candidates.mp (show d ∈ table.candidates symbol position by simp [hc])
    obtain ⟨-, es, ep⟩ := mem_candidates.mp (show e ∈ table.candidates symbol position by simp [hc])
    rw [hc] at apart
    have different := (List.pairwise_cons.mp apart).1 e List.mem_cons_self
    exact absurd ⟨ds.trans es.symm, dp.trans ep.symm⟩ different

/-- Every definition is found by its symbol and its position. -/
theorem find_of_mem (unambiguous : table.Unambiguous) {d : Operator} (h : d ∈ table.definitions) :
    table.find d.symbol d.position = .ok d := by
  obtain ⟨e, found⟩ := exists_find unambiguous (supports_iff.mpr ⟨d, h, rfl, rfl⟩)
  have member : d ∈ table.candidates d.symbol d.position := mem_candidates.mpr ⟨h, rfl, rfl⟩
  rw [candidates_of_find found, List.mem_singleton] at member
  rw [found, ← member]

end Finding

theorem unambiguous_standard : standard.Unambiguous := by
  unfold Unambiguous
  decide

theorem separated_standard : standard.Separated := by
  have apart : ∀ d ∈ standard.definitions, ∀ e ∈ standard.definitions,
      d.position = .between → e.position = .after → d.symbol ≠ e.symbol := by
    decide
  intro symbol between
  obtain ⟨d, hd, rfl, hbetween⟩ := supports_iff.mp between
  apply Bool.eq_false_iff.mpr
  intro after
  obtain ⟨e, he, hs, hafter⟩ := supports_iff.mp after
  exact apart d hd e he hbetween hafter hs.symm

namespace Placed

theorem precedence_before (d : standard.Placed .before) : d.val.precedence = 50 := by
  have h : ∀ d ∈ standard.definitions, d.position = .before → d.precedence = 50 := by decide
  exact h d d.2.1 d.2.2

theorem precedence_after (d : standard.Placed .after) : d.val.precedence = 60 := by
  have h : ∀ d ∈ standard.definitions, d.position = .after → d.precedence = 60 := by decide
  exact h d d.2.1 d.2.2

theorem precedence_between_lt (d : standard.Placed .between) : d.val.precedence < 50 := by
  have h : ∀ d ∈ standard.definitions, d.position = .between → d.precedence < 50 := by decide
  exact h d d.2.1 d.2.2

/-- An operator after its operand applies before any that comes behind it, but for a call. -/
theorem after_yieldsTo_between (a : standard.Placed .after) (d : standard.Placed .between) :
    a.val.yieldsTo d = true := by
  have ha := precedence_after a
  have hd := precedence_between_lt d
  simp only [Operator.yieldsTo, a.2.2, ha]
  simp
  omega

theorem after_yieldsTo_after (a d : standard.Placed .after) : a.val.yieldsTo d = true := by
  simp [Operator.yieldsTo, a.2.2, precedence_after]

end Placed

end OperatorTable

end Calculator
