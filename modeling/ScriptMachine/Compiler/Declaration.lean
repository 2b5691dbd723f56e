import ScriptMachine.Compiler.Statement

set_option autoImplicit false

/- Declarations of structs, traits, impls, functions and variables. The first three are staged:
no other unit sees them before this one has compiled without a diagnostic. -/
namespace ScriptMachine.Compiler

def modifyStaged (change : Staged → Staged) : Compile Unit :=
  modify fun state => { state with staged := change state.staged }

namespace Grammar

/-- One field of a struct declaration. A type annotation is checked and then forgotten. -/
def fieldDeclaration (struct : Text) (fields : List Text) : Compile (List Text) := do
  let field ← expect .identifier "field name"
  if fields.contains field.text then
    errorAt field (.duplicateField field.text struct)
  if ← accept .colon then
    let type ← expect .identifier "type name after ':'"
    if type.text != struct && ((← get).findStruct type.text).isNone then
      errorAt type (.undefinedStruct type.text)
  return fields ++ [field.text]

def structDeclaration (grammar : Grammar) : Compile Unit := do
  if !(← atTopLevel) then
    error .nestedStruct
  let name ← expect .identifier "struct name"
  let duplicate := ((← get).findStruct name.text).isSome
  if duplicate then
    errorAt name (.structRedefined name.text)
  let _ ← expect .leftBrace "'\x7b' after struct name"
  let mut fields := []
  if !(← check .rightBrace) then
    fields ← iterate grammar.bound [] fun fields => do
      if ← check .rightBrace then return (fields, false)
      let fields ← fieldDeclaration name.text fields
      return (fields, ← accept .comma)
  let _ ← expect .rightBrace "'\x7d' after struct fields"
  let type : StructType := { name := name.text, fields }
  if !duplicate && (← atTopLevel) then
    modifyStaged fun staged => { staged with structs := staged.structs.push type }

/-- The parameters of a trait method; only their number counts. -/
def signatureArity (grammar : Grammar) : Compile Nat := do
  if ← check .rightParen then return 0
  iterate grammar.bound 0 fun arity => do
    let _ ← expect .identifier "parameter name"
    return (arity + 1, ← accept .comma)

/-- One entry of a trait body. -/
def signature (grammar : Grammar) (trait : Text) (signatures : List Signature) :
    Compile (List Signature) := do
  if !(← accept .fnWord) then
    errorHere (.expected (ascii "'fn' in trait body"))
    advance
    return signatures
  else
    let method ← expect .identifier "method name"
    let _ ← expect .leftParen "'(' after method name"
    let arity ← grammar.signatureArity
    let _ ← expect .rightParen "')' after parameters"
    let _ ← expect .semicolon "';' after trait method signature"
    if signatures.any fun known => known.name == method.text then
      errorAt method (.duplicateMethod method.text trait)
      return signatures
    else
      return signatures ++ [⟨method.text, arity⟩]

def traitDeclaration (grammar : Grammar) : Compile Unit := do
  if !(← atTopLevel) then
    error .nestedTrait
  let name ← expect .identifier "trait name"
  let duplicate := ((← get).findTrait name.text).isSome
  if duplicate then
    errorAt name (.traitRedefined name.text)
  let _ ← expect .leftBrace "'\x7b' after trait name"
  let methods ← iterate grammar.bound [] fun signatures => do
    if (← check .rightBrace) || (← atEnd) then return (signatures, false)
    return (← grammar.signature name.text signatures, true)
  let _ ← expect .rightBrace "'\x7d' after trait body"
  if !duplicate && (← atTopLevel) then
    modifyStaged fun staged =>
      { staged with traits := staged.traits ++ [{ name := name.text, methods }] }

/-- What an impl is for, as far as it could be found. -/
structure ImplHeader where
  trait : Option TraitType
  struct : Option StructId
  typeName : Token

/-- The names before the body of an impl. A struct implements a trait only once. -/
def implHeader : Compile ImplHeader := do
  let traitName ← expect .identifier "trait name after 'impl'"
  let _ ← expect .forWord "'for' after trait name"
  let typeName ← expect .identifier "struct name after 'for'"
  let trait := (← get).findTrait traitName.text
  if trait.isNone then
    errorAt traitName (.undefinedTrait traitName.text)
  let struct := (← get).findStruct typeName.text
  if struct.isNone then
    errorAt typeName (.undefinedStruct typeName.text)
  match trait, struct with
  | some trait, some struct =>
    if (← get).implements struct trait.name then
      errorAt traitName (.alreadyImplemented trait.name (← structName struct))
  | _, _ => pure ()
  return { trait, struct, typeName }

/-- Checks a method against its trait and stages it. The first complaint wins. -/
def stageMethod (trait : TraitType) (struct : StructId) (structName : Text) (method : Token)
    (prototype : ObjectId) (arity : Nat) : Compile Unit := do
  match trait.findMethod method.text with
  | none => errorAt method (.methodNotInTrait method.text trait.name)
  | some signature =>
    if signature.arity != arity then
      errorAt method (.methodArity method.text arity trait.name signature.arity)
    else
      match (← get).findMethod struct method.text with
      | some existing =>
        errorAt method (.ambiguousMethod method.text structName existing.trait trait.name)
      | none =>
        let closure ← allocating [prototype] (Heap.newClosure · prototype)
        modifyStaged fun staged =>
          { staged with
            methods := staged.methods ++ [⟨struct, method.text, ⟨trait.name, closure⟩⟩] }

/-- One entry of an impl body. `provided` lists the methods met so far. -/
def implMethod (grammar : Grammar) (header : ImplHeader) (provided : List Text) :
    Compile (List Text) := do
  if !(← accept .fnWord) then
    errorHere (.expected (ascii "'fn' in impl body"))
    advance
    return provided
  else
    let method ← expect .identifier "method name"
    let (prototype, arity) ←
      grammar.function .method (header.typeName.text ++ ascii "." ++ method.text)
    if provided.contains method.text then
      errorAt method (.methodTwice method.text)
      return provided
    else
      match header.trait, header.struct with
      | some trait, some struct =>
        stageMethod trait struct (← structName struct) method prototype arity
      | _, _ => pure ()
      return method.text :: provided

/-- Stages an impl, once its body has provided all that the trait asks for. -/
def stageImpl (header : ImplHeader) (provided : List Text) : Compile Unit := do
  match header.trait, header.struct with
  | some trait, some struct =>
    for signature in trait.methods do
      if !provided.contains signature.name then
        errorAt header.typeName
          (.missingMethod signature.name trait.name (← structName struct))
    modifyStaged fun staged => { staged with impls := staged.impls ++ [(struct, trait.name)] }
  | _, _ => pure ()

def implDeclaration (grammar : Grammar) : Compile Unit := do
  if !(← atTopLevel) then
    error .nestedImpl
  let header ← implHeader
  let _ ← expect .leftBrace "'\x7b' after impl header"
  modify fun state => { state with implType := header.struct }
  let provided ← iterate grammar.bound [] fun provided => do
    if (← check .rightBrace) || (← atEnd) then return (provided, false)
    return (← grammar.implMethod header provided, true)
  let _ ← expect .rightBrace "'\x7d' after impl body"
  modify fun state => { state with implType := none }
  stageImpl header provided

/-- A function declaration behind `fn`. A local one is readable in its own body. -/
def fnDeclaration (grammar : Grammar) : Compile Unit := do
  let name ← expect .identifier "function name"
  let isGlobal ← atTopLevel
  if !isGlobal then
    declareLocal name
    markInitialized
  let (prototype, arity) ← grammar.function .function name.text
  emitOperand .closure (← makeConstant (.ref prototype))
  let shape : Shape := { arity := some arity }
  if isGlobal then
    modify fun state => { state with globals := state.globals.insert name.text ⟨shape, false⟩ }
    emitOperand .defineGlobal (← textConstant name.text)
  else
    shapeNewest shape

/-- A declaration or a statement, and recovery from a problem in it. -/
def parseDeclaration (grammar : Grammar) : Compile Unit := do
  if ← accept .structWord then grammar.structDeclaration
  else if ← accept .traitWord then grammar.traitDeclaration
  else if ← accept .implWord then grammar.implDeclaration
  else if (← check .fnWord) && (← get).cursor.next.kind == .identifier then
    advance
    grammar.fnDeclaration
  else if ← accept .varWord then grammar.varDeclaration
  else grammar.parseStatement
  if (← get).panicking then
    synchronize grammar.bound

end Grammar

end ScriptMachine.Compiler
