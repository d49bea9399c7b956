import Workbench.DomainModel.Checks
import Workbench.Language

/-!
**The language of domain models.**

It is put together from its grammar, its scopes and its checks (`domainmodel`).
-/

namespace Workbench.DomainModel

/-- The language of domain models under the given limits (`domainmodel`). -/
def languageWith (limits : Limits) : Language where
  id := "domainmodel"
  extensions := ["dmodel"]
  lexer := (parser limits).tokenize
  parser := parser limits
  scoping := .qualified
  registry := registry

/-- The language of domain models. -/
def language : Language := languageWith {}

end Workbench.DomainModel
