import Firewall.Value.Basic

/-!
# Objects named in YAML documents

A YAML document may name an object of the module of built-in objects by a
`!!python/name:` tag: a built-in function (shown `<built-in function len>`),
a built-in class (shown `<class 'int'>`; `EnvironmentError` and `IOError`
are other names of `OSError`), or one of the constants `None`, `True`,
`False`, `Ellipsis`, `NotImplemented`, `__debug__`, `__name__` and
`__package__`, the module's `__doc__`, `__loader__` and `__spec__`, or one
of the interactive helpers `exit`, `quit`, `help` and `license`, which show
as the hint they print.
-/

namespace Firewall
namespace Yaml
namespace Builtin

/-- The name of the module of built-in objects. -/
def moduleName : String := "builtins"

/-- The documentation text of the module of built-in objects. -/
def moduleDoc : String :=
  "Built-in functions, types, exceptions, and other objects.\n\nThis module provides direct access to all \u0027built-in\u0027\n" ++
  "identifiers of Python; for example, builtins.len is\nthe full name for the built-in function len().\n\n" ++
  "This module is not normally accessed explicitly by most\napplications, but can be useful in modules that provide\n" ++
  "objects with the same name as a built-in value, but in\nwhich the built-in of that name is also needed."

/-- The qualified name of the class that loads the module of built-in objects. -/
def loaderName : String := "_frozen_importlib.BuiltinImporter"

/-- The built-in functions. -/
def functions : List String := [
   "__build_class__", "__import__", "abs", "aiter", "all", "anext",
   "any", "ascii", "bin", "breakpoint", "callable", "chr",
   "compile", "delattr", "dir", "divmod", "eval", "exec",
   "format", "getattr", "globals", "hasattr", "hash", "hex",
   "id", "input", "isinstance", "issubclass", "iter", "len",
   "locals", "max", "min", "next", "oct", "open",
   "ord", "pow", "print", "repr", "round", "setattr",
   "sorted", "sum", "vars"
  ]

/-- The built-in classes, under their own names. -/
def classes : List String := [
   "ArithmeticError", "AssertionError", "AttributeError", "BaseException", "BaseExceptionGroup", "BlockingIOError",
   "BrokenPipeError", "BufferError", "BytesWarning", "ChildProcessError", "ConnectionAbortedError", "ConnectionError",
   "ConnectionRefusedError", "ConnectionResetError", "DeprecationWarning", "EOFError", "EncodingWarning", "Exception",
   "ExceptionGroup", "FileExistsError", "FileNotFoundError", "FloatingPointError", "FutureWarning", "GeneratorExit",
   "ImportError", "ImportWarning", "IndentationError", "IndexError", "InterruptedError", "IsADirectoryError",
   "KeyError", "KeyboardInterrupt", "LookupError", "MemoryError", "ModuleNotFoundError", "NameError",
   "NotADirectoryError", "NotImplementedError", "OSError", "OverflowError", "PendingDeprecationWarning", "PermissionError",
   "ProcessLookupError", "RecursionError", "ReferenceError", "ResourceWarning", "RuntimeError", "RuntimeWarning",
   "StopAsyncIteration", "StopIteration", "SyntaxError", "SyntaxWarning", "SystemError", "SystemExit",
   "TabError", "TimeoutError", "TypeError", "UnboundLocalError", "UnicodeDecodeError", "UnicodeEncodeError",
   "UnicodeError", "UnicodeTranslateError", "UnicodeWarning", "UserWarning", "ValueError", "Warning",
   "ZeroDivisionError", "bool", "bytearray", "bytes", "classmethod", "complex",
   "dict", "enumerate", "filter", "float", "frozenset", "int",
   "list", "map", "memoryview", "object", "property", "range",
   "reversed", "set", "slice", "staticmethod", "str", "super",
   "tuple", "type", "zip"
  ]

/-- Other names of built-in classes. -/
def classAliases : List (String × String) :=
  [("EnvironmentError", "OSError"), ("IOError", "OSError")]

/-- The built-in constants. -/
def constants : List (String × Value) :=
  [("None", .null), ("True", .bool true), ("False", .bool false),
   ("Ellipsis", .named "ellipsis" "Ellipsis"),
   ("NotImplemented", .named "NotImplementedType" "NotImplemented"),
   ("__debug__", .bool true), ("__name__", .str moduleName), ("__package__", .str ""),
   ("__doc__", .str moduleDoc),
   ("__loader__", .named "type" ("<class \u0027" ++ loaderName ++ "\u0027>")),
   ("__spec__", .named "ModuleSpec" ("ModuleSpec(name=\u0027" ++ moduleName ++ "\u0027, loader=<class \u0027" ++
      loaderName ++ "\u0027>, origin=\u0027built-in\u0027)")),
   ("exit", .named "Quitter" "Use exit() or Ctrl-D (i.e. EOF) to exit"),
   ("quit", .named "Quitter" "Use quit() or Ctrl-D (i.e. EOF) to exit"),
   ("help", .named "_Helper" "Type help() for interactive help, or help(object) for help about object."),
   ("license", .named "_Printer" "Type license() to see the full license text")]

/-- A built-in class as a value. -/
def classValue (name : String) : Value := .named "type" ("<class \u0027" ++ name ++ "\u0027>")

/-- A built-in function as a value. -/
def functionValue (name : String) : Value :=
  .named "builtin_function_or_method" ("<built-in function " ++ name ++ ">")

/-- The built-in object of a name, if there is one. -/
def find? (name : String) : Option Value :=
  if functions.contains name then some (functionValue name)
  else if classes.contains name then some (classValue name)
  else match classAliases.find? (·.1 == name) with
    | some (_, real) => some (classValue real)
    | none => (constants.find? (·.1 == name)).map (·.2)

end Builtin
end Yaml
end Firewall
