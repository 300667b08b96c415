/-
  Protobuf.Generate.Codec — code that measures, writes, reads and checks a message.

  Each is a list of statements, field by field in declaration order. Reading is a loop over tags
  with an arm for each entry of the dispatch table; other tags are kept or skipped.
-/

import Protobuf.Generate.Plan

namespace Protobuf.Generate

open Code Schema

namespace Plan

def tagOf (number : Nat) (wireType : WireType) : Nat := Tag.make number wireType

/-- When a singular value is written. -/
def isWritten (field : Field) (type : PlainType) : Expr :=
  match bit? field with
  | some bit => bit.isSet
  | none => isNonzero type (own (field.storageName))

/-- The size of a map entry bound to `key` and `value`. -/
def entrySize (key : ScalarType) (value : ValueType) (afresh : Bool) : Expr :=
  let keyType : ValueType := .plain (.scalar key)
  .binary .add
    (.binary .add (num 2) (valueSize keyType (boundArg keyType "key") afresh))
    (valueSize value (boundArg value "value") afresh)

/-- A member's payload, bound to `value`, as an argument. -/
def memberArg (type : ValueType) : Expr := if type.isMessage then unboxed "value" else boundArg type "value"

def entryPat : Pat := .tuple [namePat "key", namePat "value"]

/-! ## Measuring -/

/-- Adds to the size. -/
def grow (amount : Expr) : Stmt := .run (.binary .addAssign (var "size") amount)

def framed (size : Expr) : Expr := callPath (encoding "length_delimited_size") [size]

def measureField (plan : Plan) (index : Nat) (field : Field) : Stmt :=
  let place := own (field.storageName)
  let tag := num (Tag.size field.number)
  let plus := fun size => Expr.binary .add tag size
  match field.strategy with
  | .singular type _ =>
    .value (.ite (isWritten field type) [grow (plus (valueSize (.plain type) (storedArg (.plain type) place) true))])
  | .message target =>
    .value (.iteLet (somePat (namePat "value")) (.method place "get" [])
      [grow (plus (valueSize (.message target) (var "value") true))])
  | .repeated type =>
    grow (.binary .add (.binary .mul tag (.method place "len" [])) (runSize type.kind (ref place)))
  | .packed type =>
    .value (.ite (.unary .not (.method place "is_empty" [])) [grow (plus (framed (runSize type.kind (ref place))))])
  | .texts type =>
    .value (.each (namePat "value") (.method place "iter" []) [grow (plus (valueSize (.plain type) (var "value") true))])
  | .messages target =>
    .value (.each (namePat "value") (.method place "iter" [])
      [grow (plus (valueSize (.message target) (var "value") true))])
  | .map key value =>
    .value (.each entryPat (ref place) [
      .bind false "entry_size" none (entrySize key value true),
      grow (plus (framed (var "entry_size")))])
  | .member slot type =>
    .value (.iteLet (valueVariant (plan.variantPath slot index) (namePat "value"))
      (ref (own ((plan.oneofAt slot).storageName))) [grow (plus (valueSize type (memberArg type) true))])

def computeSize (plan : Plan) : Fn :=
  let stmts := (plan.fields.map fun (index, field) => plan.measureField index field) ++
    if plan.type.keepsUnknown then [grow (.method (own "_unknown") "len" [])] else []
  { name := "compute_size"
    receiver := .ref
    result := some (named "usize")
    body := [.bind (!stmts.isEmpty) "size" none (.literal (.number "0usize"))] ++ stmts ++
      [.run (.method (own "_cached_size") "set" [var "size"]), .value (var "size")] }

/-! ## Writing -/

def writeTag (tag : Nat) : Stmt := .run (sinkCall "write_raw_tag" [num tag])

def writeLength (size : Expr) : Stmt := .run (sinkCall "write_varint32" [.cast size (named "u32")])

def writeField (plan : Plan) (index : Nat) (field : Field) : Stmt :=
  let place := own (field.storageName)
  let tag := writeTag (tagOf field.number field.strategy.wireType)
  match field.strategy with
  | .singular type _ =>
    .value (.ite (isWritten field type) [tag, .run (writeValue (.plain type) (storedArg (.plain type) place))])
  | .message target =>
    .value (.iteLet (somePat (namePat "value")) (.method place "get" [])
      [tag, .run (writeValue (.message target) (var "value"))])
  | .repeated type =>
    .value (.each (.ref (namePat "value")) (ref place) [tag, .run (writeValue (.plain type) (var "value"))])
  | .packed type =>
    .value (.ite (.unary .not (.method place "is_empty" [])) [
      tag, writeLength (runSize type.kind (ref place)), .run (writeRun type.kind (ref place))])
  | .texts type =>
    .value (.each (namePat "value") (.method place "iter" []) [tag, .run (writeValue (.plain type) (var "value"))])
  | .messages target =>
    .value (.each (namePat "value") (.method place "iter" [])
      [tag, .run (writeValue (.message target) (var "value"))])
  | .map key value =>
    let keyType : ValueType := .plain (.scalar key)
    .value (.each entryPat (ref place) [
      .bind false "entry_size" none (entrySize key value false),
      tag,
      writeLength (var "entry_size"),
      writeTag (tagOf 1 keyType.wireType),
      .run (writeValue keyType (boundArg keyType "key")),
      writeTag (tagOf 2 value.wireType),
      .run (writeValue value (boundArg value "value"))])
  | .member slot type =>
    .value (.iteLet (valueVariant (plan.variantPath slot index) (namePat "value"))
      (ref (own ((plan.oneofAt slot).storageName))) [tag, .run (writeValue type (memberArg type))])

def encodeRaw (plan : Plan) : Fn :=
  let stmts := (plan.fields.map fun (index, field) => plan.writeField index field) ++
    if plan.type.keepsUnknown then
      [.run (sinkCall "write_raw_bytes" [.method (own "_unknown") "as_bytes" []])]
    else []
  { name := "encode_raw"
    receiver := .ref
    params := [(if stmts.isEmpty then "_sink" else "sink", .refMut (supportType "ProtoSink" []))]
    body := stmts }

/-! ## Reading -/

/-- Reads the entry of a map and inserts it. -/
def readEntry (plan : Plan) (field : Field) (key : ScalarType) (value : ValueType) : Expr :=
  let keyType : ValueType := .plain (.scalar key)
  let byDefault := crateCall ["core", "default", "Default", "default"]
  let start :=
    match field.type, value with
    | .map _ _ (some scalar), .plain type => initialValue type scalar
    | _, _ => byDefault
  .block [
    .bind false "len" none (sourceCall "read_length" []),
    .bind false "old_limit" none (sourceCall "push_limit" [var "len"]),
    .bind true "key" (some (plan.codeType keyType)) byDefault,
    .bind true "value" (some (plan.codeType value)) start,
    .value (.forever [.value (.switch (sourceCall "read_tag" []) [
      .mk (.literal (.number "0")) .leave true,
      .mk (.literal (.number (Nat.repr (tagOf 1 keyType.wireType)))) (readLocal keyType "key") true,
      .mk (.literal (.number (Nat.repr (tagOf 2 value.wireType)))) (readLocal value "value") true,
      .mk (namePat "other") (sourceCall "skip_field" [var "other"]) true])]),
    .run (.method (var "source") "pop_limit" [var "old_limit"]),
    .run (.method (own (field.storageName)) "insert" [var "key", var "value"])]

/-- Reads a member of a choice and selects it. -/
def readMember (plan : Plan) (index slot : Nat) (type : ValueType) : Expr :=
  let storage := own ((plan.oneofAt slot).storageName)
  let variant := plan.variantPath slot index
  match type with
  | .message _ =>
    .block (plan.selectMessage slot index ++ [
      .value (.iteLet (valueVariant variant (namePat "value")) (refMut storage)
        [.run (sourceCall "read_message" [unboxedMut "value"])])])
  | .plain plain =>
    if isCopied type then assign storage (wrapSome (callPath variant [readCopied plain]))
    else .block [
      .bind true "value" none (.call (.ofType (plan.codeType type) "new") []),
      .run (readInto type (refMut (var "value"))),
      .run (assign storage (wrapSome (callPath variant [var "value"])))]

/-- What to do behind one of a field's tags. -/
def readField (plan : Plan) (index : Nat) (field : Field) (action : Action) : Expr :=
  let place := own (field.storageName)
  match field.strategy with
  | .singular type _ =>
    let read := readInto (.plain type) (if isCopied (.plain type) then place else refMut place)
    match bit? field with
    | some bit => .block [.run read, bit.set]
    | none => read
  | .message target => readInto (.message target) (.method place "get_or_init" [])
  | .repeated type | .packed type =>
    if action = .run then readRun type.kind (refMut place) else .method place "push" [readCopied type]
  | .texts type => readInto (.plain type) (.method place "add" [])
  | .messages target => readInto (.message target) (.method place "add" [])
  | .map key value => plan.readEntry field key value
  | .member slot type => plan.readMember index slot type

def mergeFrom (plan : Plan) : Fn :=
  let arms := plan.type.dispatch.map fun entry =>
    Arm.mk (.literal (.number (Nat.repr entry.tag)))
      (plan.readField entry.field (plan.type.fields[entry.field]?.getD default) entry.action) true
  let other :=
    if plan.type.keepsUnknown then sourceCall "read_unknown_field" [var "tag", refMut (own "_unknown")]
    else sourceCall "skip_field" [var "tag"]
  let done := Expr.ret (callPath (.ofCrate ["core", "result", "Result", "Ok"]) [.unit])
  { name := "merge_from"
    receiver := .refMut
    params := [("source", .refMut (supportType "ProtoSource" [.lifetime "_"]))]
    result := some (crateType ["core", "result", "Result"] [.unit, supportType "DecodeError" []])
    isWrapped := true
    body := [.value (.forever [
      .bind false "tag" none (sourceCall "read_tag" []),
      .value (.switch (var "tag")
        ([.mk (.literal (.number "0")) done true] ++ arms ++ [.mk wildcard other true]))])] }

/-! ## Checking -/

def failWhen (condition : Expr) : Stmt := .value (.ite condition [.run (.ret (var "false"))])

def isInitializedCall (value : Expr) : Expr := callPath (support ["Protobuf", "is_initialized"]) [value]

/-- Fails unless all of an iterator's messages are complete. -/
def checkAll (values : Expr) : Stmt :=
  failWhen (.unary .not (.method values "all" [.closure "value" (isInitializedCall (var "value"))]))

/-- A required field has to be set. -/
def checkRequired (field : Field) : List Stmt :=
  if field.required then
    match bit? field, field.type with
    | some bit, _ => [failWhen bit.isUnset]
    | none, .value (.message _) =>
      [failWhen (.unary .not (.method (own (field.storageName)) "is_some" []))]
    | none, _ => []
  else []

/-- The messages in a field have to be complete. -/
def checkNested (plan : Plan) (index : Nat) (field : Field) : List Stmt :=
  let place := own (field.storageName)
  match field.strategy with
  | .message _ =>
    [.value (.iteLet (somePat (namePat "value")) (.method place "get" [])
      [failWhen (.unary .not (isInitializedCall (var "value")))])]
  | .messages _ => [checkAll (.method place "iter" [])]
  | .map _ (.message _) => [checkAll (.method place "values" [])]
  | .member slot (.message _) =>
    [.value (.iteLet (valueVariant (plan.variantPath slot index) (namePat "value"))
      (ref (own ((plan.oneofAt slot).storageName))) [failWhen (.unary .not (isInitializedCall (unboxed "value")))])]
  | _ => []

/-- The check for required fields, if anything is to be checked. -/
def isInitialized? (plan : Plan) : Option Fn :=
  let checks := plan.fields.flatMap fun (index, field) => checkRequired field ++ plan.checkNested index field
  if checks.isEmpty then none
  else some {
    name := "is_initialized"
    receiver := .ref
    result := some (named "bool")
    body := checks ++ [.value (var "true")] }

end Plan

end Protobuf.Generate
