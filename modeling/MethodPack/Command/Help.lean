import MethodPack.Command.Arguments

/-! The help text of the program. -/
namespace MethodPack.Command

/-- How the program is used. -/
def helpText : String := "\n".intercalate [
  "Packs decoded method bodies into a compact stream.",
  "",
  "  methodpack export METADATA -n NAMESPACE [-o FILE]  write the types of a namespace",
  "  methodpack dump FILE                               show everything in a stream",
  "  methodpack members FILE                            list the methods of a stream",
  "  methodpack help [COMMAND]                          show this text",
  "",
  "  -n, --namespace NAMESPACE  the namespace, which types must match exactly",
  "  -o, --output FILE          the file to write, " ++ defaultOutput ++ " unless given",
  "  -v, --verbose              accepted, and adds nothing to the output",
  "  -h, --help                 show this text",
  ""]

end MethodPack.Command
