import Spreadsheet.Formula.Draft
import Spreadsheet.Text.Blank

/-! Reading formulas. The reader takes one token at a time, keeps what is unfinished on a stack, and
asks the text only for tokens of the classes that it can take next. -/
namespace Spreadsheet.Formula

/-- An unfinished part of a formula, waiting for the operand to its right. -/
inductive Frame where
  | unary (op : UnaryOp)
  | binary (left : Draft) (op : BinaryOp)
  | group
  /-- A call with the arguments read so far, the last one first. -/
  | call (name : Token) (arguments : List Draft)

/-- What was read last, and with it what is due. -/
inductive Focus where
  /-- An operand is due. Right after the parenthesis of a call it may be missing. -/
  | operand (afterCall : Bool)
  | name (name : Token)
  /-- A reference that a colon makes the first corner of a range was read. -/
  | reference (token : Token)
  /-- The first corner of a range and the colon were read. -/
  | corner (first : Token)
  | range (draft : Draft)
  /-- Any other operand was read. -/
  | complete (draft : Draft)

namespace Focus

def operandStarts : List Terminal :=
  [.rowColumn, .errorCode, .bool, .cell, .name, .number, .text, .mark .open, .mark .minus,
    .mark .plus]

/-- What may follow an operand somewhere. -/
def operandFollowers : List Terminal :=
  [.mark .notEqual, .mark .lessEqual, .mark .greaterEqual, .mark .ampersand, .mark .caret,
    .mark .comma, .mark .equal, .mark .less, .mark .minus, .mark .greater, .mark .percent,
    .mark .plus, .mark .close, .mark .slash, .mark .star]

/-- The classes of tokens that the text is asked for. -/
def candidates : Focus → List Terminal
  | .operand false => operandStarts
  | .operand true => operandStarts ++ [.mark .close]
  | .name _ => [.mark .open]
  | .corner _ => [.rowColumn, .cell]
  | .reference _ | .range _ => operandFollowers ++ [.mark .colon]
  | .complete _ => operandFollowers

def draft? : Focus → Option Draft
  | .reference token => some (.leaf token)
  | .range draft | .complete draft => some draft
  | _ => none

end Focus

structure Reader where
  frames : List Frame
  focus : Focus

/-- Before the first token after the equal sign. -/
def Reader.start : Reader := ⟨[], .operand false⟩

/-- Gives the pending operators that bind at least as tightly as `level` their right operand. -/
def reduce (level : Nat) : List Frame → Draft → List Frame × Draft
  | .unary op :: frames, draft => reduce level frames (.unary op draft)
  | .binary left op :: frames, draft =>
    if level ≤ op.precedence then reduce level frames (.binary op left draft)
    else (.binary left op :: frames, draft)
  | frames, draft => (frames, draft)

def binaryOp? : Mark → Option BinaryOp
  | .equal => some .equal
  | .notEqual => some .notEqual
  | .less => some .less
  | .greater => some .greater
  | .lessEqual => some .lessEqual
  | .greaterEqual => some .greaterEqual
  | .ampersand => some .join
  | .plus => some .add
  | .minus => some .subtract
  | .star => some .multiply
  | .slash => some .divide
  | .caret => some .power
  | _ => none

/-- What may follow an operand once everything inside the innermost parentheses is reduced. -/
def closers : List Frame → List Expected
  | .group :: _ => [.terminal (.mark .close)]
  | .call _ _ :: _ => [.terminal (.mark .close), .terminal (.mark .comma)]
  | _ => [.finish]

namespace Reader

/-- Takes a token where an operand is due. -/
def takeOperand (frames : List Frame) (token : Token) : Reader :=
  match token.terminal with
  | .name => ⟨frames, .name token⟩
  | .cell | .rowColumn => ⟨frames, .reference token⟩
  | .mark .minus => ⟨.unary .minus :: frames, .operand false⟩
  | .mark .plus => ⟨.unary .plus :: frames, .operand false⟩
  | .mark .open => ⟨.group :: frames, .operand false⟩
  | _ => ⟨frames, .complete (.leaf token)⟩

/-- Takes a mark after an operand. A power binds its left operand before any pending operator, the
percent sign likewise; other operators first complete what binds at least as tightly. -/
def takeMark (frames : List Frame) (draft : Draft) (token : Token) (mark : Mark) :
    Except ParseError Reader :=
  match mark with
  | .percent => .ok ⟨frames, .complete (.unary .percent draft)⟩
  | .caret => .ok ⟨.binary draft .power :: frames, .operand false⟩
  | .close =>
    match reduce 0 frames draft with
    | (.group :: frames, draft) => .ok ⟨frames, .complete draft⟩
    | (.call name arguments :: frames, draft) =>
      .ok ⟨frames, .complete (.call name (draft :: arguments).reverse)⟩
    | (frames, _) => .error (.unexpectedToken token (closers frames))
  | .comma =>
    match reduce 0 frames draft with
    | (.call name arguments :: frames, draft) =>
      .ok ⟨.call name (draft :: arguments) :: frames, .operand false⟩
    | (frames, _) => .error (.unexpectedToken token (closers frames))
  | mark =>
    match binaryOp? mark with
    | some op =>
      let (frames, draft) := reduce op.precedence frames draft
      .ok ⟨.binary draft op :: frames, .operand false⟩
    | none =>
      .error (.unexpectedToken token (.finish :: Focus.operandFollowers.map .terminal))

/-- Takes one token of the classes asked for. -/
def take (r : Reader) (token : Token) : Except ParseError Reader :=
  match r.focus, token.terminal with
  | .operand true, .mark .close =>
    match r.frames with
    | .call name arguments :: frames => .ok ⟨frames, .complete (.call name arguments.reverse)⟩
    | frames => .error (.unexpectedToken token (closers frames))
  | .operand _, _ => .ok (takeOperand r.frames token)
  | .name name, _ => .ok ⟨.call name [] :: r.frames, .operand true⟩
  | .reference first, .mark .colon => .ok ⟨r.frames, .corner first⟩
  | .reference first, .mark mark => takeMark r.frames (.leaf first) token mark
  | .corner first, _ => .ok ⟨r.frames, .range (.range first token)⟩
  | .range draft, .mark mark => takeMark r.frames draft token mark
  | .complete draft, .mark mark => takeMark r.frames draft token mark
  | _, _ => .error (.unexpectedToken token (r.focus.candidates.map .terminal))

/-- Ends the formula after `size` characters. -/
def finish (size : Nat) (r : Reader) : Except ParseError Draft :=
  match r.focus.draft? with
  | none => .error (.unexpectedEnd size (r.focus.candidates.map .terminal))
  | some draft =>
    match reduce 0 r.frames draft with
    | ([], draft) => .ok draft
    | (frames, _) => .error (.unexpectedEnd size (closers frames))

end Reader

/-- The fault where no token of the classes asked for starts. -/
def misfit (text rest : List Char) (column : Nat) (candidates : List Terminal) : ParseError :=
  let expected := candidates.map Expected.terminal
  match Terminal.first? Terminal.all rest with
  | some t => .unexpectedToken ⟨t, rest.take (t.extent rest), column⟩ expected
  | none => .unexpectedCharacter (text.getD (column - 1) ' ') column expected

/-- Reads the rest of a text from a column on. -/
def readFrom (text : List Char) (r : Reader) (column : Nat) (rest : List Char) :
    Except ParseError Draft :=
  match rest with
  | [] => r.finish text.length
  | c :: tail =>
    if isSpacing c then readFrom text r (nextColumn column c) tail
    else
      match Terminal.first? r.focus.candidates (c :: tail) with
      | none => .error (misfit text (c :: tail) column r.focus.candidates)
      | some t =>
        let extent := t.extent (c :: tail)
        let token : Token := ⟨t, (c :: tail).take extent, column⟩
        if extent = 0 then .error (misfit text (c :: tail) column r.focus.candidates)
        else
          match r.take token with
          | .error e => .error e
          | .ok r => readFrom text r (columnAfter column token.chars) ((c :: tail).drop extent)
termination_by rest.length
decreasing_by
  · simp
  · simp only [List.length_drop, List.length_cons]; omega

/-- Reads the text of a formula, which starts with an equal sign. -/
def draft? (s : String) : Except ParseError Draft :=
  match Text.trim s.toList with
  | '=' :: rest => readFrom ('=' :: rest) .start 2 rest
  | _ => .error .noEqualSign

def parse (s : String) : Except ParseError Formula := draft? s >>= Draft.resolve

/-- Whether a cell text is a formula rather than a constant. -/
def isFormulaText (s : String) : Bool := (Text.trim s.toList).head? == some '='

end Spreadsheet.Formula
