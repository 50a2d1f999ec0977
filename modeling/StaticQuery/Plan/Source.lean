import StaticQuery.Json.Printer
import StaticQuery.Plan.Basic

/-!
The source text of compiled operations, in the manner of JavaScript. Each scope is a closure that
is called in place, each custom resolver a call through the schema. Blocks are indented by two
spaces for each level.
-/

namespace StaticQuery

namespace Source

def newLine (depth : Nat) : String :=
  String.ofList ('\n' :: List.replicate (2 * depth) ' ')

def block (depth : Nat) (opening body closing : String) : String :=
  opening ++ newLine (depth + 1) ++ body ++ newLine depth ++ closing

def nodes : List FieldNode → String
  | [] => ""
  | [node] => Json.quoted node.render
  | node :: rest => Json.quoted node.render ++ ", " ++ nodes rest

def info (info : ResolveInfo) : String :=
  match info.fieldNodes with
  | [] => "\x7b\x7d"
  | fieldNodes => "\x7b fieldNodes: [" ++ nodes fieldNodes ++ "] \x7d"

def call (call : ResolverCall) : String :=
  (if call.awaited then "await " else "") ++
  "schema.getType(" ++ Json.quoted call.coordinate.type.text ++ ").toConfig().fields." ++
  call.coordinate.field.text ++ ".resolve(" ++ call.source.render ++ ", " ++
  (Json.object call.arguments).render ++ ", undefined, " ++ info call.info ++ ")"

def closureOpening (isAsync : Bool) : String :=
  if isAsync then "await (async function () \x7b" else "(function () \x7b"

/-- What a closure answers for a value that is present, up to the selected object. Only objects
that are no arrays contribute members of their own. -/
def mergeOpening (binding : String) : String :=
  "return Object.assign(\x7b\x7d, typeof " ++ binding ++ " === \"object\" && !Array.isArray(" ++
    binding ++ ") ? " ++ binding ++ " : \x7b\x7d, "

def object (depth : Nat) (isEmpty : Bool) (lines : String) : String :=
  if isEmpty then "\x7b\x7d" else block depth "\x7b" lines "\x7d"

mutual

def expr (depth : Nat) : Expr → String
  | .property source key => source.render ++ "[" ++ Json.quoted key.text ++ "]"
  | .resolve site => call site
  | .literal value => value.render
  | .scope binding value selection isAsync =>
      block depth (closureOpening isAsync)
        ("const " ++ binding.render ++ " = " ++ expr (depth + 1) value ++ ";" ++
          newLine (depth + 1) ++
          block (depth + 1) ("if (" ++ binding.render ++ ") \x7b")
            (mergeOpening binding.render ++
              object (depth + 2) selection.isEmpty (properties (depth + 3) selection) ++ ");")
            "\x7d" ++
          newLine (depth + 1) ++ "return null;")
        "\x7d)()"

def properties (depth : Nat) : List (Name × Expr) → String
  | [] => ""
  | [(key, value)] => key.text ++ ": " ++ expr depth value ++ ","
  | (key, value) :: rest =>
      key.text ++ ": " ++ expr depth value ++ "," ++ newLine depth ++ properties depth rest

end

end Source

def CompiledOperation.source (operation : CompiledOperation) : String :=
  Source.block 0
    ((if operation.isAsync then "(async function " else "(function ") ++ operation.name.text ++
      "(" ++ String.intercalate ", " parameters ++ ") \x7b")
    (Source.block 1 "return \x7b" ("data: " ++
      Source.object 2 operation.data.isEmpty (Source.properties 3 operation.data) ++ ",") "\x7d;")
    "\x7d)"

def Artifact.sources : List CompiledOperation → String
  | [] => ""
  | [operation] => operation.source
  | operation :: rest => operation.source ++ "\n\n" ++ sources rest

def Artifact.source (artifact : Artifact) : String :=
  Artifact.sources artifact.toList

end StaticQuery
