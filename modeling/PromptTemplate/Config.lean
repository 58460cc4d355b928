import PromptTemplate.Cause
import PromptTemplate.Text.Blank
import PromptTemplate.Yaml

/-!
# The opening section

Its body is a YAML mapping; a blank body is an empty one. A body that is neither is refused.
-/

namespace PromptTemplate.Config

def entries? (body : String) : Option (Dict Json) :=
  if Text.isAllBlank body then some [] else Yaml.mapping? body

/-- What is wrong with a body that is refused. Only the code of this cause and the location of its
error are specified. A YAML reader words its reason as it likes and may say what it stopped at; here
one reason stands for all. -/
def refusal : Cause := .invalidConfig "the section is not a YAML mapping"

end PromptTemplate.Config
