/-!
# Failures

Every way the engine can refuse its input, as one type. `Failure.message` is the sentence a
user reads, `Failure.code` the diagnostic code printed above it, and `Failure.help` the advice
printed below it, where there is any.
-/
namespace ReactiveView

/-- Why an operation of the engine failed. -/
inductive Failure where
  /-- A file could not be read or written; the text is the system's description. -/
  | io (description : String)
  /-- No element of the document matches the mount selector. -/
  | invalidMountTarget (selector : String)
  /-- A selector outside the supported grammar. -/
  | invalidSelector (selector : String)
  /-- An element was still open where it had to be closed. -/
  | unclosedElement (tag : String)
  /-- A closing tag that closes no open element, at its byte offset. -/
  | unexpectedClosingTag (tag : String) (offset : Nat)
  /-- The configuration file is not valid. -/
  | configParse (reason : String)
  /-- A setting needed for rendering was given nowhere. -/
  | missingConfigField (field : String)
  /-- A data file could not be read or parsed. -/
  | dataFile (path reason : String)
  /-- A data file whose extension names no known format. -/
  | unsupportedDataFormat (format : String)
  /-- View data that is not an object. -/
  | invalidData (typeName : String)
  /-- An assignment to a path that names no existing property. -/
  | invalidPath (path : String)
  deriving DecidableEq, Repr, Inhabited

namespace Failure

/-- The sentence that describes the failure. -/
def message : Failure → String
  | .io description => description
  | .invalidMountTarget s => "mount target `" ++ s ++ "` did not match any element"
  | .invalidSelector s => "invalid selector: `" ++ s ++ "`"
  | .unclosedElement t => "missing closing tag for element: `" ++ t ++ "`"
  | .unexpectedClosingTag t offset =>
    "unexpected closing tag `</" ++ t ++ ">` at offset " ++ toString offset
  | .configParse reason => "failed to parse config file: " ++ reason
  | .missingConfigField field => "missing `" ++ field ++ "` setting"
  | .dataFile path reason => "failed to load data file `" ++ path ++ "`: " ++ reason
  | .unsupportedDataFormat format => "unsupported data file format: `" ++ format ++ "`"
  | .invalidData typeName => "view data must be an object, found " ++ typeName
  | .invalidPath path => "no observed property at path `" ++ path ++ "`"

/-- The diagnostic code of the failure. -/
def code : Failure → String
  | .io _ => "zue::io_error"
  | .invalidMountTarget _ => "zue::invalid_mount_target"
  | .invalidSelector _ => "zue::invalid_selector"
  | .unclosedElement _ => "zue::unclosed_element"
  | .unexpectedClosingTag _ _ => "zue::unexpected_closing_tag"
  | .configParse _ => "zue::config_parse"
  | .missingConfigField _ => "zue::missing_config_field"
  | .dataFile _ _ => "zue::data_file"
  | .unsupportedDataFormat _ => "zue::unsupported_format"
  | .invalidData _ => "zue::invalid_data"
  | .invalidPath _ => "zue::invalid_path"

/-- The advice printed with the failure, if any. -/
def help : Failure → Option String
  | .invalidMountTarget _ => some "check that the `el` selector matches an element in the template"
  | .invalidSelector _ => some "supported selectors: `#id`, `.class`, `tag`, `tag#id`, `tag.class`"
  | .unclosedElement t => some ("add `</" ++ t ++ ">` to close this element")
  | .configParse _ =>
    some "check that zue.toml is valid TOML with `el`, `template` and `data` keys"
  | .missingConfigField field => some ("set `" ++ field ++ "` in zue.toml or pass it on the command line")
  | .unsupportedDataFormat _ => some "supported formats: json, toml, yaml, yml"
  | .invalidPath _ => some "the parent of the path must be an object that already exists in the data"
  | _ => none

end Failure

end ReactiveView
