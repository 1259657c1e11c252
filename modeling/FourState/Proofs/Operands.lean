import FourState.Proofs.Operating

/-!
# Operands

Operands are resolved before an update is carried out, and an update only reads
them.  So it does not matter whether an operand owns its words or borrows them:
`LogicVector.update_map_owning` says that an update does the same with copies of
its operands.
-/

namespace FourState

/-! ## Exchanging operands -/

namespace Operation

variable {operand other third error : Type}

/-- Operands that are exchanged first are resolved as what they are exchanged for. -/
theorem traverse_map
    (exchange : operand → other)
    (resolve : other → Except error third)
    (operation : Operation operand) :
    (operation.map exchange).traverse resolve =
      operation.traverse fun name => resolve (exchange name) := by
  cases operation <;> rfl

/-- Resolved operands can be exchanged one by one. -/
theorem map_traverse
    (resolve : operand → Except error other)
    (exchange : other → third)
    (operation : Operation operand) :
    (operation.traverse resolve).map (Operation.map exchange) =
      operation.traverse fun name => (resolve name).map exchange := by
  cases operation with
  | increment | decrement => rfl
  | negate source | invert source | reduce reduction source | partSelect source lsb msb
  | partAssign source lsb msb =>
      simp only [traverse]
      cases resolve source <;> rfl
  | add left right | subtract left right | multiply left right | divide division left right
  | bitwise function left right | compare relation left right | caseCompare operator left right
  | logical connective left right | shift kind left right | expand left right
  | concat left right =>
      simp only [traverse]
      cases resolve left with
      | error cause => rfl
      | ok first => cases resolve right <;> rfl

/-- What a resolved operation reads is the target or stands for an operand. -/
theorem mem_operands_of_traverse
    {resolve : operand → Except error other}
    {operation : Operation operand}
    {resolved : Operation other}
    (succeeds : operation.traverse resolve = .ok resolved)
    {target vector : other}
    (isOperand : vector ∈ resolved.operands target) :
    vector = target ∨ ∃ name, resolve name = .ok vector := by
  cases operation with
  | increment | decrement =>
      cases succeeds
      exact .inl (List.mem_singleton.1 isOperand)
  | negate source | invert source | reduce reduction source | partSelect source lsb msb
  | partAssign source lsb msb =>
      obtain ⟨read, resolves, succeeds⟩ := bind_eq_ok_iff.1 succeeds
      cases succeeds
      rw [List.mem_singleton.1 isOperand]
      exact .inr ⟨source, resolves⟩
  | add left right | subtract left right | multiply left right | divide division left right
  | bitwise function left right | compare relation left right | caseCompare operator left right
  | logical connective left right | shift kind left right | expand left right
  | concat left right =>
      obtain ⟨first, resolvesFirst, succeeds⟩ := bind_eq_ok_iff.1 succeeds
      obtain ⟨second, resolvesSecond, succeeds⟩ := bind_eq_ok_iff.1 succeeds
      cases succeeds
      have isOne : vector = first ∨ vector = second := by simpa [operands] using isOperand
      obtain rfl | rfl := isOne
      · exact .inr ⟨left, resolvesFirst⟩
      · exact .inr ⟨right, resolvesSecond⟩

/-- Exchanging the operands leaves everything else of an operation. -/
theorem forget_of_traverse
    {resolve : operand → Except error other}
    {operation : Operation operand}
    {resolved : Operation other}
    (succeeds : operation.traverse resolve = .ok resolved) :
    resolved.map (fun _ => ()) = operation.map fun _ => () := by
  cases operation with
  | increment | decrement =>
      cases succeeds
      rfl
  | negate source | invert source | reduce reduction source | partSelect source lsb msb
  | partAssign source lsb msb =>
      obtain ⟨vector, -, succeeds⟩ := bind_eq_ok_iff.1 succeeds
      cases succeeds
      rfl
  | add left right | subtract left right | multiply left right | divide division left right
  | bitwise function left right | compare relation left right | caseCompare operator left right
  | logical connective left right | shift kind left right | expand left right
  | concat left right =>
      obtain ⟨leftVector, -, succeeds⟩ := bind_eq_ok_iff.1 succeeds
      obtain ⟨rightVector, -, succeeds⟩ := bind_eq_ok_iff.1 succeeds
      cases succeeds
      rfl

end Operation

namespace Update

variable {operand other third error : Type}

/-- Exchange the operands. -/
def map (exchange : operand → other) : Update operand → Update other
  | setSigned signed => setSigned signed
  | setTwoState twoState => setTwoState twoState
  | assign low high lsb msb => assign low high lsb msb
  | applyChange text msb lsb => applyChange text msb lsb
  | setNat value => setNat value
  | setWord value => setWord value
  | setUnknown => setUnknown
  | extendFrom last => extendFrom last
  | setValue source => setValue (exchange source)
  | commit value => commit value
  | operate operation => operate (operation.map exchange)
  | claim msb lsb => claim msb lsb
  | copyFrom source => copyFrom (exchange source)
  | copyRange source lsb => copyRange (exchange source) lsb
  | merge source => merge (exchange source)
  | resetCoverage => resetCoverage
  | evaluateUnary => evaluateUnary
  | evaluate evaluation left right => evaluate evaluation (exchange left) (exchange right)
  | mergeRecord text options => mergeRecord text options

/-- Operands that are exchanged first are resolved as what they are exchanged for. -/
theorem traverse_map
    (exchange : operand → other)
    (resolve : other → Except error third)
    (change : Update operand) :
    (change.map exchange).traverse resolve =
      change.traverse fun name => resolve (exchange name) := by
  cases change with
  | operate operation => simp only [map, traverse, Operation.traverse_map]
  | _ => rfl

/-- Resolved operands can be exchanged one by one. -/
theorem map_traverse
    (resolve : operand → Except error other)
    (exchange : other → third)
    (change : Update operand) :
    (change.traverse resolve).map (Update.map exchange) =
      change.traverse fun name => (resolve name).map exchange := by
  cases change with
  | setValue source | copyFrom source | copyRange source lsb | merge source =>
      simp only [traverse]
      cases resolve source <;> rfl
  | operate operation =>
      simp only [traverse, ← Operation.map_traverse]
      cases operation.traverse resolve <;> rfl
  | evaluate evaluation left right =>
      simp only [traverse]
      cases resolve left with
      | error cause => rfl
      | ok first => cases resolve right <;> rfl
  | setSigned | setTwoState | assign | applyChange | setNat | setWord | setUnknown | extendFrom
  | commit | claim | resetCoverage | evaluateUnary | mergeRecord => rfl

/-- A resolved operation is a resolved update. -/
theorem traverse_operate
    {resolve : operand → Except error other}
    {operation : Operation operand}
    {resolved : Operation other}
    (succeeds : operation.traverse resolve = .ok resolved) :
    (Update.operate operation).traverse resolve = .ok (.operate resolved) := by
  rw [traverse, succeeds]
  rfl

/-- An update without its operands. -/
def shape (change : Update operand) : Update Unit :=
  change.map fun _ => ()

/-- Exchanging the operands leaves everything else of an update. -/
theorem shape_of_traverse
    {resolve : operand → Except error other}
    {change : Update operand}
    {resolved : Update other}
    (succeeds : change.traverse resolve = .ok resolved) :
    resolved.shape = change.shape := by
  cases change with
  | copyFrom name | merge name | setValue name | copyRange name lsb =>
      obtain ⟨vector, -, succeeds⟩ := bind_eq_ok_iff.1 succeeds
      cases succeeds
      rfl
  | operate operation =>
      obtain ⟨resolvedOperation, resolves, succeeds⟩ := bind_eq_ok_iff.1 succeeds
      cases succeeds
      exact congrArg operate (Operation.forget_of_traverse resolves)
  | evaluate evaluation left right =>
      obtain ⟨leftVector, -, succeeds⟩ := bind_eq_ok_iff.1 succeeds
      obtain ⟨rightVector, -, succeeds⟩ := bind_eq_ok_iff.1 succeeds
      cases succeeds
      rfl
  | setSigned | setTwoState | assign | applyChange | setNat | setWord | setUnknown | extendFrom
  | commit | claim | resetCoverage | evaluateUnary | mergeRecord =>
      cases succeeds
      rfl

@[simp] theorem isEvaluation_shape (change : Update operand) :
    change.shape.isEvaluation = change.isEvaluation := by
  cases change <;> rfl

@[simp] theorem isAssigning_shape (change : Update operand) :
    change.shape.isAssigning = change.isAssigning := by
  cases change <;> rfl

@[simp] theorem header_shape (change : Update operand) :
    change.shape.header = change.header := by
  cases change <;> rfl

section Traverse

variable {resolve : operand → Except error other} {change : Update operand} {resolved : Update other}

/-- Exchanging the operands keeps an evaluation an evaluation. -/
theorem isEvaluation_of_traverse (succeeds : change.traverse resolve = .ok resolved) :
    resolved.isEvaluation = change.isEvaluation := by
  rw [← isEvaluation_shape, shape_of_traverse succeeds, isEvaluation_shape]

/-- Exchanging the operands keeps an update one that gives a value. -/
theorem isAssigning_of_traverse (succeeds : change.traverse resolve = .ok resolved) :
    resolved.isAssigning = change.isAssigning := by
  rw [← isAssigning_shape, shape_of_traverse succeeds, isAssigning_shape]

/-- Exchanging the operands leaves the flags that an update sets. -/
theorem header_of_traverse (succeeds : change.traverse resolve = .ok resolved) :
    resolved.header = change.header := by
  rw [← header_shape, shape_of_traverse succeeds, header_shape]

end Traverse

end Update

/-! ## Owned and borrowed operands -/

namespace LogicVector

/-- The vector with words of its own. -/
def owning (vector : LogicVector) : LogicVector :=
  { vector with
    storage :=
      match vector.storage.content? with
      | some block => .owned block
      | none => .absent }

@[simp] theorem toHeader_owning (vector : LogicVector) :
    vector.owning.toHeader = vector.toHeader :=
  rfl

@[simp] theorem content?_owning (vector : LogicVector) :
    vector.owning.storage.content? = vector.storage.content? := by
  unfold owning
  cases stored : vector.storage.content? <;> rfl

@[simp] theorem block_owning (vector : LogicVector) : vector.owning.block = vector.block := by
  rw [LogicVector.block, LogicVector.block, content?_owning]

@[simp] theorem ofVector_owning (vector : LogicVector) :
    Buffer.ofVector vector.owning = Buffer.ofVector vector := by
  rw [Buffer.ofVector, Buffer.ofVector, block_owning, toHeader_owning]

@[simp] theorem operand_owning (vector : LogicVector) (width : Nat) (signExtend : Bool) :
    vector.owning.operand width signExtend = vector.operand width signExtend := by
  rw [LogicVector.operand, LogicVector.operand, ofVector_owning]

@[simp] theorem display_owning (vector : LogicVector) :
    vector.owning.display = vector.display := by
  rw [display, display, digits, digits, content?_owning, toHeader_owning]

/-- Operators read owned and borrowed operands alike. -/
theorem compute_map_owning (target : LogicVector) (operation : Operation LogicVector) :
    (operation.map owning).compute target = operation.compute target := by
  cases operation with
  | increment | decrement => rfl
  | add | subtract | multiply | negate =>
      simp only [Operation.map, Operation.compute, Operator.add, Operator.subtract,
        Operator.multiply, Operator.negate, Operator.combine, bothSigned, operand_owning,
        toHeader_owning]
  | divide =>
      simp only [Operation.map, Operation.compute, Operator.divide, bothSigned, ofVector_owning,
        toHeader_owning]
      rfl
  | bitwise | invert =>
      simp only [Operation.map, Operation.compute, Operator.bitwise, Operator.invert,
        operand_owning, toHeader_owning]
  | compare | caseCompare | logical | reduce =>
      simp only [Operation.map, Operation.compute, Operator.compare, Operator.caseCompare,
        Operator.logical, Operator.reduce, bothSigned, operand_owning, ofVector_owning,
        toHeader_owning]
  | partSelect =>
      simp only [Operation.map, Operation.compute, Operator.partSelect, requireRange,
        ofVector_owning, toHeader_owning]
      rfl
  | shift | partAssign | expand | concat =>
      simp only [Operation.map, Operation.compute, Operator.shift, Operator.partAssign,
        Operator.expand, Operator.concat, operand_owning, ofVector_owning, toHeader_owning]

/-- A failing operation logs owned and borrowed operands alike. -/
theorem log_map_owning (failure : Failure) (operation : Operation LogicVector) :
    (operation.map owning).log failure = operation.log failure := by
  cases operation with
  | divide =>
      cases failure <;> simp only [Operation.map, Operation.log, display_owning]
  | _ => rfl

/-- An update does the same with operands that have words of their own. -/
theorem update_map_owning (target : LogicVector) (change : Update LogicVector) :
    target.update (change.map owning) = target.update change := by
  cases change with
  | operate operation =>
      simp only [Update.map, update, operate, compute_map_owning, log_map_owning,
        Operation.range_map]
  | setValue source =>
      simp only [Update.map, update, setValue, ofVector_owning, toHeader_owning]
  | copyFrom source =>
      simp only [Update.map, update, copyFrom, block_owning, toHeader_owning]
      rfl
  | copyRange source lsb =>
      simp only [Update.map, update, copyRange, block_owning, toHeader_owning]
      rfl
  | merge source =>
      simp only [Update.map, update, merge, block_owning, toHeader_owning]
      rfl
  | evaluate evaluation left right =>
      simp only [Update.map, update, evaluate, ofVector_owning]
  | setSigned | setTwoState | assign | applyChange | setNat | setWord | setUnknown | extendFrom
  | commit | claim | resetCoverage | evaluateUnary | mergeRecord => rfl

end LogicVector
end FourState
