import RaftCore.Msgpack.Spelling

/-!
# Msgpack/Parse — the parser that calls a visitor

`v3/parse.hpp`: the same switch as before, but an item is a call of the visitor, and the containers
that are open are no more than their kind and how much of them is to come (`StackElem`).  A visitor
that answers `false` stops the parser, one that throws ends it (`Visitor.ask`).

`parseImp` is the parser on data in one piece; `off` is returned beside the result, since it is set
also where nothing is parsed.
-/

namespace RaftCore

namespace Msgpack

open BigEndian

/-- A call of a visitor, with its arguments; a string is what its pointer and size delimit. -/
inductive Visit where
  | visitNil
  | visitBoolean (v : Bool)
  | visitPositiveInteger (v : UInt64)
  | visitNegativeInteger (v : Int64)
  | visitFloat32 (bits : UInt32)
  | visitFloat64 (bits : UInt64)
  | visitStr (v : List UInt8)
  | visitBin (v : List UInt8)
  | visitExt (v : List UInt8)
  | startArray (numElements : ℕ)
  | startArrayItem
  | endArrayItem
  | endArray
  | startMap (numKvPairs : ℕ)
  | startMapKey
  | endMapKey
  | startMapValue
  | endMapValue
  | endMap

/-- A visitor: what a call answers and leaves, and its two error handlers with their offsets.  What
it may throw is its own (`ε`); the parser throws nothing. -/
structure Visitor (ε σ : Type) where
  visit : Visit → σ → Except ε (Bool × σ)
  parseError : ℕ → ℕ → σ → Except ε σ
  insufficientBytes : ℕ → ℕ → σ → Except ε σ

inductive ParseReturn where
  | success
  | extraBytes
  | continue
  | parseError
  | stopVisitor
  deriving DecidableEq, Repr

/-- `msgpack_container_type`. -/
inductive ContainerType where
  | arrayItem
  | mapKey
  | mapValue
  deriving DecidableEq, Repr

/-- `stack_elem`. -/
structure StackElem where
  type : ContainerType
  rest : ℕ

/-- How `execute` ends, with the visitor as it is left; with the data it has none of these. -/
inductive Parsed (ε σ : Type) where
  | success (s : σ)
  | stopVisitor (s : σ)
  | parseError (s : σ)
  | threw (e : ε)

section Parser

variable {ε σ : Type}

/-- What the parser does with an item: it goes on, or it ends. -/
abbrev Parsing (ε σ : Type) := Handled (List StackElem × σ) (Parsed ε σ)

/-- A call that may stop the parser, on the last byte of the item (`back`) or behind it. -/
def Visitor.ask (v : Visitor ε σ) (call : Visit) (back : Bool) (s : σ) (k : σ → Parsing ε σ) :
    Parsing ε σ :=
  match v.visit call s with
  | .error e => .ends true (.threw e)
  | .ok (false, s) => .ends back (.stopVisitor s)
  | .ok (true, s) => k s

/-- `unpack_stack::consume`: the item is over, and with it the containers it fills. -/
def consume (v : Visitor ε σ) : List StackElem → σ → Parsing ε σ
  | [], s => .ends false (.success s)
  | ⟨.arrayItem, rest⟩ :: stack, s => v.ask .endArrayItem true s fun s =>
    if rest - 1 = 0 then v.ask .endArray true s fun s => consume v stack s
    else v.ask .startArrayItem false s fun s => .goes (⟨.arrayItem, rest - 1⟩ :: stack, s)
  | ⟨.mapKey, rest⟩ :: stack, s => v.ask .endMapKey true s fun s =>
    v.ask .startMapValue false s fun s => .goes (⟨.mapValue, rest⟩ :: stack, s)
  | ⟨.mapValue, rest⟩ :: stack, s => v.ask .endMapValue true s fun s =>
    if rest - 1 = 0 then v.ask .endMap true s fun s => consume v stack s
    else v.ask .startMapKey false s fun s => .goes (⟨.mapKey, rest - 1⟩ :: stack, s)

/-- `after_visit_proc`, with the visit before it. -/
def afterVisitProc (v : Visitor ε σ) (stack : List StackElem) (s : σ) (call : Visit) :
    Parsing ε σ :=
  v.ask call true s fun s => consume v stack s

/-- `start_aggregate`; a container with something in it is pushed and its first item started. -/
def startAggregate (v : Visitor ε σ) (stack : List StackElem) (s : σ) (sv ev item : Visit)
    (type : ContainerType) (size : ℕ) : Parsing ε σ :=
  v.ask sv true s fun s =>
    if size = 0 then v.ask ev true s fun s => consume v stack s
    else v.ask item false s fun s => .goes (⟨type, size⟩ :: stack, s)

/-- `static_cast<uint32_t>(m_trail)`, for what begins at `n`. -/
def castSize (n : List UInt8) : List UInt8 := n.take (n.length % 2 ^ 32)

/-- The calls of `execute` for an item. -/
def visitToken (v : Visitor ε σ) : List StackElem × σ → Token → Parsing ε σ
  | (stack, s), .nil => afterVisitProc v stack s .visitNil
  | (stack, s), .boolean b => afterVisitProc v stack s (.visitBoolean b)
  | (stack, s), .uint u64 => afterVisitProc v stack s (.visitPositiveInteger u64)
  | (stack, s), .int d => afterVisitProc v stack s (.visitNegativeInteger (Int64.ofInt d))
  | (stack, s), .float bits => afterVisitProc v stack s (.visitFloat32 bits)
  | (stack, s), .double bits => afterVisitProc v stack s (.visitFloat64 bits)
  | (stack, s), .str n => afterVisitProc v stack s (.visitStr (castSize n))
  | (stack, s), .bin n => afterVisitProc v stack s (.visitBin (castSize n))
  | (stack, s), .ext n => afterVisitProc v stack s (.visitExt (castSize n))
  | (stack, s), .array size =>
    startAggregate v stack s (.startArray size) .endArray .startArrayItem .arrayItem size
  | (stack, s), .map size =>
    startAggregate v stack s (.startMap size) .endMap .startMapKey .mapKey size

/-- `context::execute`, with the visitor in its state. -/
def parser (v : Visitor ε σ) : Reader (Cs × List StackElem × σ) UInt8 (Parsed ε σ) :=
  machine (visitToken v) fun k => .parseError k.2

/-- `noff - 1`, which a `size_t` has room for below 0 too. -/
def minusOne (noff : ℕ) : ℕ := (noff + (2 ^ 64 - 1)) % 2 ^ 64

/-- `parse_imp`, and `off` after it; what is thrown inside `execute` leaves `off` as it was. -/
def parseImp (v : Visitor ε σ) (s : σ) (data : List UInt8) (off : ℕ) :
    Except ε (ParseReturn × σ) × ℕ :=
  if data.length ≤ off then
    ((v.insufficientBytes off off s).map fun s => (.continue, s), off)
  else match (parser v).read (.header, [], s) (data.drop off) with
    | .waiting (_, _, s) rest =>
      let noff := data.length - rest.length
      ((v.insufficientBytes (minusOne noff) noff s).map fun s => (.continue, s), noff)
    | .halted (.success s) rest =>
      let noff := data.length - rest.length
      (.ok (if noff < data.length then .extraBytes else .success, s), noff)
    | .halted (.stopVisitor s) rest => (.ok (.stopVisitor, s), data.length - rest.length)
    | .halted (.parseError s) rest =>
      let noff := data.length - rest.length
      match v.parseError (minusOne noff) noff s with
      | .ok s => (.ok (.parseError, s), noff)
      | .error e => (.error e, off)
    | .halted (.threw e) _ => (.error e, off)

end Parser

end Msgpack

end RaftCore
