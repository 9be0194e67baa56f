/-!
# Kinds of shader files

A reference may leave out the extension of the file it means. The kinds, in the order in which
their extensions are tried.
-/
namespace ShaderIncludes

/-- The kinds of shader files. -/
inductive Kind where
  | source
  | shader
  | template
  deriving DecidableEq, Repr

/-- All kinds, in the order in which their extensions are tried. -/
def Kind.all : List Kind := [.source, .shader, .template]

/-- The extension of the files of a kind, without its dot. -/
def Kind.extension : Kind → String
  | .source => "orlsource"
  | .shader => "orlshader"
  | .template => "orltemplate"

/-- The path of the file of this kind that `path` names without an extension. -/
def Kind.extend (kind : Kind) (path : String) : String := path ++ "." ++ kind.extension

end ShaderIncludes
