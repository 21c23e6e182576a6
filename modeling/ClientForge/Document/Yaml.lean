import ClientForge.Document.Yaml.Building
import ClientForge.Document.Yaml.Stream
/-!
# YAML documents

The value of a text: tokens, the nodes that they describe, and the values of those.
-/

namespace ClientForge
namespace Yaml

/-- The value of a text's document; a text without one has the value null. -/
def parse (cs : List Char) : Except Fault Value := do
  let (tokens, ending) := Stream.tokensOf cs
  match ← Graph.ofTokens tokens ending with
  | (_, none) => pure .null
  | (nodes, some root) => nodes.value root

end Yaml
end ClientForge
