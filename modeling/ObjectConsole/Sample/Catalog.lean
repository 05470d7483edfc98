import ObjectConsole.Builtin.Ascii
import ObjectConsole.Sample.Exhibits

/-!
The catalog of the console: the built-in classes, the demonstration classes and the exhibits, on
any host.
-/

namespace ObjectConsole.Sample

/-- What the console runs on: how deep things may nest, and what the methods of built-in values
answer that go by tables. -/
class Host where
  limits : Limits
  library : Builtin.Library

/-- The host of the program. -/
instance (priority := low) Host.usual : Host where
  limits := { expressions := 250, displays := 899, prints := 239 }
  library := .ascii

variable [Host]

def outlines : Outlines :=
  .ofList Host.limits (Builtin.outlines ++ demoOutlines ++ exhibitOutlines)

def catalog : Catalog :=
  .ofList outlines
    (Builtin.lineages Host.library outlines ++ demoLineages outlines ++ exhibitLineages outlines)

def demonstration : Value × World :=
  match demoPerson World.empty with
  | .ok v w => (v, w)
  | .error _ w => (.null, w)

end ObjectConsole.Sample
