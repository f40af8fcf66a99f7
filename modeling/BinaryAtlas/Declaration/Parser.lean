import BinaryAtlas.Declaration.Layout
import BinaryAtlas.Declaration.Token
import BinaryAtlas.QualifiedName
import BinaryAtlas.Table

/-!
Reading C declarations. The reader takes tokens from the front; a structure or enumeration with a
body is defined as soon as its body ends, and its name can be used from there on. A name that is
not known counts as a type of width zero.
-/

set_option autoImplicit false

namespace BinaryAtlas

structure Declarations where
  types : List (QualifiedName × DataType)
  dataVariables : List (QualifiedName × DataType)
  functions : List (QualifiedName × DataType)

structure DeclarationContext where
  addressSize : Word
  /-- Widths of the types that can be named. -/
  known : Table String Word

namespace DeclarationContext

def withTypes (c : DeclarationContext) (types : List (String × DataType)) : DeclarationContext :=
  { c with known := types.foldl (fun known t => known.insert t.1 t.2.width) c.known }

end DeclarationContext

structure DeclarationReader where
  rest : List PlacedToken
  stop : Nat
  context : DeclarationContext
  types : List (QualifiedName × DataType)

/-- A reading step: it fails, or goes on from a later state. -/
abbrev Reading (α : Type) : Type := StateT DeclarationReader (Except AtlasError) α

namespace DeclarationReader

def start (text : String) (context : DeclarationContext) :
    Except AtlasError DeclarationReader := do
  let tokens ← CToken.lex text
  pure ⟨tokens, text.utf8ByteSize, context, []⟩

def peek? (r : DeclarationReader) : Option CToken := r.rest.head?.map (·.token)

def peekSecond? (r : DeclarationReader) : Option CToken := r.rest[1]?.map (·.token)

def offset (r : DeclarationReader) : Nat :=
  match r.rest with
  | t :: _ => t.offset
  | [] => r.stop

def drop (n : Nat) : Reading Unit := modify fun r => { r with rest := r.rest.drop n }

def fail {α : Type} (what : String) : Reading α := do
  let offset := (← get).offset
  throw (.parse s!"{what} at offset {offset}")

def atEnd : Reading Bool := do pure (← get).rest.isEmpty

def eat (c : Char) : Reading Bool := do
  if (← get).peek? = some (.mark c) then
    drop 1
    pure true
  else pure false

def expect (c : Char) : Reading Unit := do
  if !(← eat c) then fail ("expected '" ++ c.toString ++ "'")

def word? : Reading (Option String) := do
  match (← get).peek? with
  | some (.word w) =>
    drop 1
    pure (some w)
  | _ => pure none

/-- A number that fits 63 bits, perhaps with a minus before it. -/
def number : Reading Int := do
  let negative ← eat '-'
  match (← get).peek? with
  | some (.number n) =>
    drop 1
    if n.toNat < 0x8000000000000000 then pure (if negative then -(n.toNat : Int) else n.toNat)
    else fail "number out of range"
  | _ => fail "expected a number"

def ignoredWords : List String :=
  ["const", "volatile", "restrict", "static", "extern", "inline", "register"]

def isIgnored (t : PlacedToken) : Bool :=
  match t.token with
  | .word w => ignoredWords.contains w
  | _ => false

def skipIgnored : Reading Unit := modify fun r => { r with rest := r.rest.dropWhile isIgnored }

def namedType (name : String) : Reading DataType := do
  pure (.named name (((← get).context.known.get? name).getD 0))

def qualify (name : String) : Reading QualifiedName :=
  match QualifiedName.parse name with
  | .ok q => pure q
  | .error e => throw (.parse e.message)

def noteWidth (name : String) (width : Word) : Reading Unit :=
  modify fun r => { r with
    context := { r.context with known := r.context.known.insert name width } }

def defineTag (tag : Option String) (type : DataType) : Reading Unit := do
  match tag with
  | none => pure ()
  | some name =>
    noteWidth name type.width
    let q ← qualify name
    modify fun r => { r with types := r.types ++ [(q, type)] }

def standardType? (name : String) (addressSize : Word) : Option DataType :=
  match name with
  | "int8_t" => some (.integer 1 true)
  | "uint8_t" => some (.integer 1 false)
  | "int16_t" => some (.integer 2 true)
  | "uint16_t" | "char16_t" => some (.integer 2 false)
  | "int32_t" => some (.integer 4 true)
  | "uint32_t" | "char32_t" => some (.integer 4 false)
  | "int64_t" => some (.integer 8 true)
  | "uint64_t" => some (.integer 8 false)
  | "size_t" | "uintptr_t" => some (.integer addressSize false)
  | "ssize_t" | "intptr_t" | "ptrdiff_t" => some (.integer addressSize true)
  | _ => none

end DeclarationReader

/-- The word that says what kind of type it is; the others modify it. -/
inductive BaseType where
  | void
  | bool
  | char
  | int
  | float
  | double
  | other (type : DataType)
  deriving DecidableEq, Inhabited

namespace BaseType

def ofWord? : String → Option BaseType
  | "void" => some void
  | "bool" | "_Bool" => some bool
  | "char" => some char
  | "int" => some int
  | "float" => some float
  | "double" => some double
  | _ => none

end BaseType

structure Specifiers where
  isTypedef : Bool
  signed : Option Bool
  shorts : Nat
  longs : Nat
  base : Option BaseType
  deriving DecidableEq, Inhabited

namespace Specifiers

def none : Specifiers := ⟨false, .none, 0, 0, .none⟩

def hasModifiers (s : Specifiers) : Bool := s.signed.isSome || 0 < s.shorts || 0 < s.longs

/-- The integer type that modifiers make, `none` if they contradict each other. -/
def integer? (s : Specifiers) (addressSize : Word) : Option DataType :=
  let width : Option Word :=
    if s.longs = 0 then some (if s.shorts = 0 then 4 else 2)
    else if s.shorts ≠ 0 then .none
    else if s.longs = 1 ∧ addressSize < 8 then some 4
    else some 8
  width.map fun w => .integer w (s.signed.getD true)

def type (s : Specifiers) (addressSize : Word) : Except String DataType :=
  let integer := match s.integer? addressSize with
    | some t => .ok t
    | .none => .error "conflicting type specifiers"
  let unmodified := fun t =>
    if s.hasModifiers then .error "conflicting type specifiers" else .ok t
  match s.base with
  | some (.other t) => unmodified t
  | some .void => unmodified .void
  | some .bool => unmodified .bool
  | some .float => unmodified (.float 4)
  | some .double =>
    if s.signed.isNone && s.shorts == 0 then .ok (.float (if 0 < s.longs then 16 else 8))
    else .error "conflicting type specifiers"
  | some .char =>
    if s.shorts = 0 ∧ s.longs = 0 then .ok (.integer 1 (s.signed.getD true))
    else .error "conflicting type specifiers"
  | some .int => integer
  | .none => if s.hasModifiers then integer else .error "expected a type"

end Specifiers

namespace DeclarationReader

def finishSpecifiers (s : Specifiers) : Reading (DataType × Bool) := do
  match s.type (← get).context.addressSize with
  | .ok t => pure (t, s.isTypedef)
  | .error what => fail what

inductive SpecifierStep where
  | take (s : Specifiers)
  | structure_
  | enumeration
  | stop
  | refuse (what : String)

def specifierStep (allowTypedef : Bool) (context : DeclarationContext) (s : Specifiers)
    (word : String) : SpecifierStep :=
  if word = "typedef" then
    if allowTypedef then .take { s with isTypedef := true } else .refuse "typedef not allowed here"
  else if ignoredWords.contains word then .take s
  else if word = "signed" then .take { s with signed := some true }
  else if word = "unsigned" then .take { s with signed := some false }
  else if word = "short" then .take { s with shorts := s.shorts + 1 }
  else if word = "long" then .take { s with longs := s.longs + 1 }
  else if word = "union" then .refuse "unions are not supported"
  else if word = "struct" ∨ word = "enum" then
    if s.base.isSome || s.hasModifiers then .refuse "conflicting type specifiers"
    else if word = "struct" then .structure_ else .enumeration
  else
    match BaseType.ofWord? word with
    | some base =>
      if s.base.isSome then .refuse "conflicting type specifiers"
      else .take { s with base := some base }
    | none =>
      -- Any other word names a type where none is named yet, and what is declared after that.
      if s.base.isNone && !s.hasModifiers then
        let type := (standardType? word context.addressSize).getD
          (.named word ((context.known.get? word).getD 0))
        .take { s with base := some (.other type) }
      else .stop

/-- Enumerators up to the closing brace; `next` is the value of one that gives none. -/
def enumerators : Nat → Int → Reading (List (String × Int))
  | 0, _ => throw (.internal "the text is too deeply nested")
  | fuel + 1, next => do
    if ← eat '\x7d' then pure []
    else
      match ← word? with
      | none => fail "expected an enumerator"
      | some name =>
        let value ← if ← eat '=' then number else pure next
        if ← eat ',' then
          let others ← enumerators fuel (Int.bmod (value + 1) 0x10000000000000000)
          pure ((name, value) :: others)
        else
          expect '\x7d'
          pure [(name, value)]

def enumSpecifier (fuel : Nat) : Reading DataType := do
  let tag ← word?
  if ← eat '\x7b' then
    let type := DataType.enumeration tag (← enumerators fuel 0) 4
    defineTag tag type
    pure type
  else
    match tag with
    | some name => namedType name
    | none => fail "expected an enum name or body"

def stars : Nat → Reading Nat
  | 0 => pure 0
  | fuel + 1 => do
    if ← eat '*' then
      skipIgnored
      pure ((← stars fuel) + 1)
    else pure 0

def pointers (addressSize : Word) : Nat → DataType → DataType
  | 0, type => type
  | n + 1, type => pointers addressSize n (.pointer type addressSize)

def dimension : Reading Word := do
  -- The length between brackets, the first of which is read; none stands for zero.
  if ← eat ']' then pure 0
  else
    let n ← number
    expect ']'
    if n < 0 then fail "negative array size" else pure (.ofNat n.toNat)

mutual

def specifiers (allowTypedef : Bool) : Nat → Specifiers → Reading (DataType × Bool)
  | 0, _ => throw (.internal "the text is too deeply nested")
  | fuel + 1, s => do
    match (← get).peek? with
    | some (.word word) =>
      match specifierStep allowTypedef (← get).context s word with
      | .take s =>
        drop 1
        specifiers allowTypedef fuel s
      | .structure_ =>
        drop 1
        let type ← structSpecifier fuel
        specifiers allowTypedef fuel { s with base := some (.other type) }
      | .enumeration =>
        drop 1
        let type ← enumSpecifier fuel
        specifiers allowTypedef fuel { s with base := some (.other type) }
      | .stop => finishSpecifiers s
      | .refuse what => fail what
    | _ => finishSpecifiers s

def structSpecifier : Nat → Reading DataType
  | 0 => throw (.internal "the text is too deeply nested")
  | fuel + 1 => do
    let tag ← word?
    if ← eat '\x7b' then
      let type := DataType.laidOut tag (← structBody fuel)
      defineTag tag type
      pure type
    else
      match tag with
      | some name => namedType name
      | none => fail "expected a struct name or body"

def structBody : Nat → Reading (List (String × DataType))
  | 0 => throw (.internal "the text is too deeply nested")
  | fuel + 1 => do
    if ← eat '\x7d' then pure []
    else if ← atEnd then fail "unterminated struct body"
    else
      let (type, _) ← specifiers false fuel .none
      let members ← memberNames type fuel
      expect ';'
      pure (members ++ (← structBody fuel))

def memberNames (base : DataType) : Nat → Reading (List (String × DataType))
  | 0 => throw (.internal "the text is too deeply nested")
  | fuel + 1 => do
    match ← declarator base fuel with
    | (_, none) => fail "struct member has no name"
    | (type, some name) =>
      if ← eat ',' then pure ((name, type) :: (← memberNames base fuel))
      else pure [(name, type)]

def declarator (base : DataType) : Nat → Reading (DataType × Option String)
  | 0 => throw (.internal "the text is too deeply nested")
  | fuel + 1 => do
    let addressSize := (← get).context.addressSize
    let inner := pointers addressSize (← stars fuel) base
    -- `(*` makes a pointer to what the suffixes say, so its stars count after them.
    let (name, outer) ←
      if (← get).peek? = some (.mark '(') ∧ (← get).peekSecond? = some (.mark '*') then
        drop 1
        let outer ← stars fuel
        let name ← word?
        expect ')'
        pure (name, outer)
      else
        let name ← word?
        pure (name, 0)
    let (parameters, dims) ← suffixes none fuel
    let result := match parameters with
      | some (parameters, variadic) => DataType.function inner parameters variadic
      | none => inner
    let type := pointers addressSize outer (dims.foldr (fun count t => .array t count) result)
    if (← get).peek? = some (.mark '=') then fail "initializers are not supported"
    else pure (type, name)

def suffixes (found : Option (List Parameter × Bool)) :
    Nat → Reading (Option (List Parameter × Bool) × List Word)
  -- Parameters and dimensions behind a name. Parameters come first if at all.
  | 0 => throw (.internal "the text is too deeply nested")
  | fuel + 1 => do
    if ← eat '[' then
      let first ← dimension
      let others ← dimensions fuel
      pure (found, first :: others)
    else if found.isNone then
      if ← eat '(' then suffixes (some (← parameters fuel)) fuel
      else pure (found, [])
    else pure (found, [])

def dimensions : Nat → Reading (List Word)
  | 0 => throw (.internal "the text is too deeply nested")
  | fuel + 1 => do
    if ← eat '[' then
      let first ← dimension
      let others ← dimensions fuel
      pure (first :: others)
    else pure []

def parameters : Nat → Reading (List Parameter × Bool)
  | 0 => throw (.internal "the text is too deeply nested")
  | fuel + 1 => do
    if ← eat ')' then pure ([], false)
    else if (← get).peek? = some (.word "void") ∧ (← get).peekSecond? = some (.mark ')') then
      drop 2
      pure ([], false)
    else parameterList fuel

def parameterList : Nat → Reading (List Parameter × Bool)
  | 0 => throw (.internal "the text is too deeply nested")
  | fuel + 1 => do
    if (← get).peek? = some .ellipsis then
      drop 1
      expect ')'
      pure ([], true)
    else
      let (base, _) ← specifiers false fuel .none
      let (type, name) ← declarator base fuel
      if ← eat ')' then pure ([.mk name type], false)
      else
        expect ','
        let (others, variadic) ← parameterList fuel
        pure (.mk name type :: others, variadic)

end

-- No step of the reader above goes on without taking a token more than four times.
def fuelFor (tokens : List PlacedToken) : Nat := 8 * tokens.length + 8

def tagOf : DataType → Option String
  | .record name _ _ => name
  | .enumeration name _ _ => name
  | .named name _ => some name
  | _ => none

def singleDeclaration : Reading (DataType × QualifiedName) := do
  let fuel := fuelFor (← get).rest
  let (base, _) ← specifiers false fuel .none
  let (type, name) ← declarator base fuel
  discard (eat ';')
  if !(← atEnd) then fail "unexpected trailing input"
  else
    match name <|> tagOf type with
    | none => fail "declaration has no name"
    | some name => pure (type, ← qualify name)

def declare (isTypedef : Bool) (name : QualifiedName) (type : DataType) (found : Declarations) :
    Reading Declarations := do
  if isTypedef then
    noteWidth name.text type.width
    modify fun r => { r with types := r.types ++ [(name, type)] }
    pure found
  else
    match type with
    | .function _ _ _ => pure { found with functions := found.functions ++ [(name, type)] }
    | _ => pure { found with dataVariables := found.dataVariables ++ [(name, type)] }

def declaredNames (base : DataType) (isTypedef : Bool) :
    Nat → Declarations → Reading Declarations
  | 0, _ => throw (.internal "the text is too deeply nested")
  | fuel + 1, found => do
    match ← declarator base fuel with
    | (_, none) => fail "declaration has no name"
    | (type, some name) =>
      let found ← declare isTypedef (← qualify name) type found
      if ← eat ',' then declaredNames base isTypedef fuel found
      else
        expect ';'
        pure found

def declarationList : Nat → Declarations → Reading Declarations
  | 0, _ => throw (.internal "the text is too deeply nested")
  | fuel + 1, found => do
    if ← atEnd then pure found
    else if ← eat ';' then declarationList fuel found
    else
      let (base, isTypedef) ← specifiers true fuel .none
      if ← eat ';' then declarationList fuel found
      else declarationList fuel (← declaredNames base isTypedef fuel found)

def allDeclarations : Reading Declarations := do
  let fuel := fuelFor (← get).rest
  let found ← declarationList fuel ⟨[], [], []⟩
  pure { found with types := (← get).types }

end DeclarationReader

namespace DeclarationContext

def parseType (context : DeclarationContext) (text : String) :
    Except AtlasError (DataType × QualifiedName) := do
  (DeclarationReader.singleDeclaration).run' (← DeclarationReader.start text context)

def parseTypes (context : DeclarationContext) (text : String) : Except AtlasError Declarations := do
  (DeclarationReader.allDeclarations).run' (← DeclarationReader.start text context)

end DeclarationContext

end BinaryAtlas
