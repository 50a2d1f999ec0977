import StaticQuery.Compile.Machine
import StaticQuery.Document.Validity
import StaticQuery.TypeSystem.Validity

/-!
From texts: schemas with resolvers to be registered, and artifacts from query texts.
-/

namespace StaticQuery

def ExecutableSchema.parse (text : String) : Except SchemaError ExecutableSchema :=
  match Schema.parse? text with
  | some definitions => .ok (.ofSchema definitions)
  | none => .error .invalidText

def compile (text : String) (schema : ExecutableSchema) (options : Options) :
    Except CompileError Artifact :=
  match Document.parse? schema.definitions text with
  | some document => compileDocument document schema options
  | none => .error .invalidDocument

end StaticQuery
