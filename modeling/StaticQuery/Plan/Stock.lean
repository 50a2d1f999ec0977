import StaticQuery.Plan.Resolver

/-!
Ready-made resolvers that answer from their inputs alone.
-/

namespace StaticQuery

namespace Resolver

abbrev Answer := Resolver (Except ResolverError Json)

def constant (value : Json) : Answer :=
  fun _ _ _ => .ok value

def echoSource : Answer :=
  fun source _ _ => .ok source

def echoArguments : Answer :=
  fun _ arguments _ => .ok (.object arguments)

def echoArgument (name : String) : Answer :=
  fun _ arguments _ => .ok ((arguments.get? name).getD .null)

def member (key : String) : Answer :=
  fun source _ _ => .ok (source.property key)

def infoTexts (info : ResolveInfo) : Json :=
  .array (info.fieldNodes.map fun node => .string node.render)

def echoInfo : Answer :=
  fun _ _ info => .ok (infoTexts info)

def inspect : Answer :=
  fun source arguments info =>
    .ok (.object [("source", source), ("args", .object arguments), ("info", infoTexts info)])

def failing (message : String) : Answer :=
  fun _ _ _ => .error ⟨message⟩

def delayed (pending : Nat) (answer : Answer) : Resolver (Future (Except ResolverError Json)) :=
  fun source arguments info => ⟨pending, answer source arguments info⟩

end Resolver

end StaticQuery
