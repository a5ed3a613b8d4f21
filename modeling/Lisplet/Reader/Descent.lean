import Lisplet.Reader.Basic

/-! Reading by recursive descent: each function reads one construct at the front of a text and hands
on the text behind it. There is no result, `none`, where a text would be cut inside a character,
where a length would be negative, or where the limit to the rounds of a loop and to the depth of
nested forms is too low. -/

namespace Lisplet.Reader.Descent

/-- What keeps a construct from being read, found at the front of `rest`. Another alternative may
be tried unless it is final. -/
structure Obstacle where
  final : Bool
  kind : SyntaxFault.Kind
  rest : List Char

abbrev Reading := ExceptT Obstacle Option

abbrev Parser (α : Type) := List Char → Reading (α × List Char)

/-! Lengths and cuts, which are counted in bytes. -/

def extent (text : List Char) : Nat :=
  (String.ofList text).utf8ByteSize

def minus? (m n : Nat) : Option Nat :=
  if n ≤ m then some (m - n) else none

def dropBytes? : List Char → Nat → Option (List Char)
  | text, 0 => some text
  | [], _ + 1 => none
  | c :: text, n => if c.utf8Size ≤ n then dropBytes? text (n - c.utf8Size) else none

/-! Parts of constructs. -/

section

variable {α : Type}

def one (f : Char → Option α) : Parser α
  | c :: rest =>
    match f c with
    | some a => pure (a, rest)
    | none => throw ⟨false, .invalid, c :: rest⟩
  | [] => throw ⟨false, .invalid, []⟩

def only (c : Char) : Parser Char :=
  one (Option.guard (· == c))

def takeAll (p : Char → Bool) : Parser (List Char) := fun text =>
  pure (text.takeWhile p, text.dropWhile p)

def takeSome (p : Char → Bool) : Parser (List Char) := fun text => do
  let (cs, rest) ← takeAll p text
  if cs.isEmpty then throw ⟨false, .invalid, text⟩ else pure (cs, rest)

def either (first second : Parser α) : Parser α := fun text =>
  tryCatch (first text) fun o => if o.final then throw o else second text

def many (p : Parser α) : Nat → List Char → Reading (List Char)
  | 0, _ => none
  | rounds + 1, text =>
    match p text with
    | none => none
    | some (.error o) => if o.final then throw o else pure text
    | some (.ok (_, rest)) =>
      -- what reads nothing could be read for ever
      if extent rest = extent text then throw ⟨false, .invalid, text⟩ else many p rounds rest

end

/-! Constructs. -/

def comment : Parser (List Char) := fun text => do
  let (c, rest) ← only ';' text
  let (cs, rest) ← takeAll (· != '\n') rest
  pure (c :: cs, rest)

def gap (options : Options) : Parser (List Char) :=
  if options.comments then either (takeSome Text.isSpace) comment else takeSome Text.isSpace

def atmosphere (limit : Nat) (options : Options) : Parser Unit := fun text => do
  let rest ← many (gap options) limit text
  pure ((), rest)

def atom : Parser Value := fun text => do
  let (token, rest) ← takeSome isTokenChar text
  match atom? token with
  | some v => pure (v, rest)
  | none => throw ⟨true, .invalid, text⟩

def stringRest (chars : List Char) : Parser Value
  | '"' :: rest => pure (.string (String.ofList chars.reverse), rest)
  | '\\' :: c :: rest =>
    match Text.unescape? c with
    | some d => stringRest (d :: chars) rest
    | none => throw ⟨true, .invalid, '\\' :: c :: rest⟩
  | ['\\'] => throw ⟨true, .incomplete, []⟩
  | c :: rest => stringRest (c :: chars) rest
  | [] => throw ⟨true, .incomplete, []⟩

def string : Parser Value := fun text => do
  let (_, rest) ← only '"' text
  stringRest [] rest

/-! Constructs that hold other forms, over a way to read those. -/

section

variable (limit : Nat) (options : Options) (go : Parser Value)

def items (bracket : Bracket) : Nat → List Value → Parser Value
  | 0, _, _ => none
  | rounds + 1, read, text => do
    let (_, rest) ← atmosphere limit options text
    match rest with
    | [] => throw ⟨true, .incomplete, rest⟩
    | c :: _ =>
      match Bracket.ofCloser? c with
      | some closer =>
        if closer = bracket then
          let behind ← dropBytes? rest c.utf8Size
          pure (.ofList read.reverse, behind)
        else throw ⟨true, .mismatched, rest⟩
      | none =>
        let (v, behind) ← go rest
        items bracket rounds (v :: read) behind

def list : Parser Value := fun text => do
  let (bracket, rest) ← one Bracket.ofOpener? text
  items limit options go bracket limit [] rest

def quote : Parser Value := fun text => do
  let (_, rest) ← only '\x27' text
  let (_, rest) ← atmosphere limit options rest
  if rest.isEmpty then throw ⟨true, .incomplete, rest⟩
  else
    let (v, behind) ← go rest
    pure (v.quoted, behind)

def construct : Parser Value := fun text =>
  match text with
  | [] => throw ⟨true, .incomplete, text⟩
  | c :: _ =>
    if (Bracket.ofOpener? c).isSome then list limit options go text
    else if (Bracket.ofCloser? c).isSome then throw ⟨true, .unexpected, text⟩
    else if c = '"' then string text
    else if c = '\x27' then quote limit options go text
    else if c = ';' then throw ⟨true, .invalid, text⟩
    else atom text

end

section

variable (limit : Nat) (options : Options)

def nested : Nat → Parser Value
  | 0 => fun _ => none
  | depth + 1 => construct limit options (nested depth)

def form : Parser Value :=
  nested limit options limit

def topLevel (whole : List Char) : Nat → List (Nat × Value) → Parser (List (Nat × Value))
  | 0, _, _ => none
  | rounds + 1, read, text => do
    let (_, rest) ← atmosphere limit options text
    if rest.isEmpty then pure (read.reverse, rest)
    else
      let (v, behind) ← form limit options rest
      let offset ← minus? (extent whole) (extent rest)
      topLevel whole rounds ((offset, v) :: read) behind

def forms (text : List Char) : Option (Except Stop (List (Nat × Value))) := do
  match ← (topLevel limit options text limit [] text).run with
  | .ok (read, _) => pure (.ok read)
  | .error o =>
    let offset ← minus? (extent text) (extent o.rest)
    pure (.error ⟨o.kind, offset⟩)

def readForms (label : Option String) (source : String) :
    Option (Except SyntaxFault (List (Nat × Value))) :=
  (forms limit options source.toList).map fun outcome =>
    outcome.mapError fun stop => ⟨stop.kind, source, stop.offset, label⟩

end

end Lisplet.Reader.Descent
