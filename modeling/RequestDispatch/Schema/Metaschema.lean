import RequestDispatch.Schema.Basic

/-!
The schema of schemas. A value is a schema when it meets this one; it says which values the
keywords can have, at any depth, and nothing about unknown keywords.
-/

namespace RequestDispatch.Metaschema

def reference (target : String) : Json :=
  .ofMembers [("$ref", .string target)]

def anySchema : Json := reference "#"

def ofType (name : String) : Json :=
  .ofMembers [("type", .string name)]

def ofFormat (name : String) : Json :=
  .ofMembers [("type", .string "string"), ("format", .string name)]

def limit : Json := reference "#/definitions/nonNegativeInteger"

def schemas : Json := reference "#/definitions/schemaArray"

def texts : Json := reference "#/definitions/stringArray"

def typeName : Json := reference "#/definitions/simpleTypes"

def choice (options : List Json) : Json :=
  .ofMembers [("anyOf", .array options)]

def namedSchemas : Json :=
  .ofMembers [("type", .string "object"), ("additionalProperties", anySchema)]

def definitions : Json :=
  .ofMembers
    [("schemaArray", .ofMembers
        [("type", .string "array"), ("minItems", .ofNat 1), ("items", anySchema)]),
     ("nonNegativeInteger", .ofMembers [("type", .string "integer"), ("minimum", .ofNat 0)]),
     ("simpleTypes", .ofMembers [("enum", .ofStrings (JsonType.all.map JsonType.name))]),
     ("stringArray", .ofMembers
        [("type", .string "array"), ("items", ofType "string"), ("uniqueItems", .bool true)])]

/-- What the value of each keyword has to be. -/
def keywords : Json :=
  .ofMembers
    [("$id", ofFormat "uri-reference"), ("$schema", ofFormat "uri"),
     ("$ref", ofFormat "uri-reference"), ("$comment", ofType "string"),
     ("title", ofType "string"), ("description", ofType "string"),
     ("readOnly", ofType "boolean"), ("examples", ofType "array"),
     ("multipleOf", .ofMembers
        [("type", .string "number"), ("exclusiveMinimum", .ofNat 0)]),
     ("maximum", ofType "number"), ("exclusiveMaximum", ofType "number"),
     ("minimum", ofType "number"), ("exclusiveMinimum", ofType "number"),
     ("maxLength", limit), ("minLength", limit), ("pattern", ofFormat "regex"),
     ("additionalItems", anySchema), ("items", choice [anySchema, schemas]),
     ("maxItems", limit), ("minItems", limit), ("uniqueItems", ofType "boolean"),
     ("contains", anySchema), ("maxProperties", limit), ("minProperties", limit),
     ("required", texts), ("additionalProperties", anySchema), ("definitions", namedSchemas),
     ("properties", namedSchemas),
     ("patternProperties", .ofMembers
        [("type", .string "object"), ("additionalProperties", anySchema),
         ("propertyNames", .ofMembers [("format", .string "regex")])]),
     ("dependencies", .ofMembers
        [("type", .string "object"), ("additionalProperties", choice [anySchema, texts])]),
     ("propertyNames", anySchema), ("enum", ofType "array"),
     ("type", choice [typeName, .ofMembers
        [("type", .string "array"), ("items", typeName), ("minItems", .ofNat 1),
         ("uniqueItems", .bool true)]]),
     ("format", ofType "string"), ("contentMediaType", ofType "string"),
     ("contentEncoding", ofType "string"), ("if", anySchema), ("then", anySchema),
     ("else", anySchema), ("allOf", schemas), ("anyOf", schemas), ("oneOf", schemas),
     ("not", anySchema)]

def document : Json :=
  .ofMembers
    [("definitions", definitions),
     ("type", .ofStrings ["object", "boolean"]), ("properties", keywords)]

end RequestDispatch.Metaschema
