import Unravel.Pass.Strings.Rotation

/-!
Contract: the settings of a pipeline.

Layers of settings are laid over the defaults, later ones on top; a null says
nothing about its setting.
-/

namespace Unravel.Options

/-- Null for the tracked functions selects the built-in names. -/
def standard : Options :=
  [("inline_functions", .null),
    ("rotated_array_name", .text Pass.Strings.rotatedName),
    ("array_rotation", .ofInt Pass.Strings.rotation),
    ("rot13_strings", .bool false),
    ("rename_map", .object []),
    ("beautify", .bool true)]

def overlay (options layer : Options) : Options :=
  layer.foldl
    (fun merged entry => if entry.2.isNull then merged else Members.put merged entry.1 entry.2)
    options

def merge (layers : List Options) : Options :=
  layers.foldl overlay standard

/-- A setting; null when it is missing. -/
def setting (options : Options) (name : String) : Json :=
  (Members.get? options name).getD .null

end Unravel.Options
