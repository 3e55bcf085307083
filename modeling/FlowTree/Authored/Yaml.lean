import FlowTree.Authored.Reading
import FlowTree.Yaml.Reading

/-! Authored workflows in YAML. -/

set_option autoImplicit false

namespace FlowTree.Authored

def Workflow.ofYaml (text : String) : Except String Workflow :=
  Yaml.ofText (Workflow.read Yaml.format) text

end FlowTree.Authored
