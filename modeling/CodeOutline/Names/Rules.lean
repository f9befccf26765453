import CodeOutline.Language

/-!
# Rules of naming

What a language says about names: which receivers stand for the object at hand, what separates the
parts of a qualified name, and which names are there without any import.
-/

namespace CodeOutline

/-- The names that a language gives to every file. -/
inductive Builtins where
  | none
  /-- Names that all live under one root. -/
  | under (root : String) (names : List String)
  /-- Short names, each with its qualified form. -/
  | table (entries : List (String × String))

structure NameRules where
  /-- Receivers whose meaning is known only when the program runs. -/
  selfWords : List String
  /-- What may stand between the parts of a name. -/
  separators : List String
  /-- What joins a module and its member. -/
  memberJoin : String
  builtins : Builtins

namespace NameRules

def pythonBuiltins : List String :=
  ["ArithmeticError", "AssertionError", "AttributeError", "BaseException", "ConnectionError",
    "DeprecationWarning", "Exception", "FileNotFoundError", "IOError", "ImportError",
    "IndexError", "KeyError", "KeyboardInterrupt", "LookupError", "NotImplementedError",
    "OSError", "PermissionError", "RuntimeError", "StopIteration", "SystemExit", "TimeoutError",
    "TypeError", "UnicodeDecodeError", "UserWarning", "ValueError", "Warning",
    "ZeroDivisionError", "abs", "all", "any", "bool", "bytearray", "bytes", "callable",
    "classmethod", "dict", "dir", "enumerate", "filter", "float", "format", "frozenset",
    "getattr", "hasattr", "hash", "id", "int", "isinstance", "issubclass", "iter", "len", "list",
    "map", "max", "min", "next", "object", "open", "print", "property", "range", "repr",
    "reversed", "round", "set", "setattr", "sorted", "staticmethod", "str", "sum", "tuple",
    "type", "vars", "zip"]

def javaLang : List String :=
  ["ArithmeticException", "ArrayIndexOutOfBoundsException", "AutoCloseable", "Boolean", "Byte",
    "CharSequence", "Character", "Class", "ClassCastException", "CloneNotSupportedException",
    "Cloneable", "Comparable", "Deprecated", "Double", "Enum", "Error", "Exception", "Float",
    "FunctionalInterface", "IllegalArgumentException", "IllegalStateException",
    "IndexOutOfBoundsException", "Integer", "InterruptedException", "Iterable", "Long", "Math",
    "NullPointerException", "Number", "NumberFormatException", "Object", "Override", "Record",
    "Runnable", "RuntimeException", "Short", "String", "StringBuffer", "StringBuilder",
    "SuppressWarnings", "System", "Thread", "Throwable", "UnsupportedOperationException", "Void"]

def rustPrelude : List (String × String) :=
  [("AsMut", "std::convert::AsMut"), ("AsRef", "std::convert::AsRef"), ("Box", "std::boxed::Box"),
    ("Clone", "std::clone::Clone"), ("Copy", "std::marker::Copy"),
    ("Default", "std::default::Default"),
    ("DoubleEndedIterator", "std::iter::DoubleEndedIterator"), ("Drop", "std::ops::Drop"),
    ("Eq", "std::cmp::Eq"), ("Err", "std::result::Result::Err"),
    ("ExactSizeIterator", "std::iter::ExactSizeIterator"), ("Extend", "std::iter::Extend"),
    ("Fn", "std::ops::Fn"), ("FnMut", "std::ops::FnMut"), ("FnOnce", "std::ops::FnOnce"),
    ("From", "std::convert::From"), ("Into", "std::convert::Into"),
    ("IntoIterator", "std::iter::IntoIterator"), ("Iterator", "std::iter::Iterator"),
    ("None", "std::option::Option::None"), ("Ok", "std::result::Result::Ok"),
    ("Option", "std::option::Option"), ("Ord", "std::cmp::Ord"),
    ("PartialEq", "std::cmp::PartialEq"), ("PartialOrd", "std::cmp::PartialOrd"),
    ("Result", "std::result::Result"), ("Send", "std::marker::Send"),
    ("Sized", "std::marker::Sized"), ("Some", "std::option::Option::Some"),
    ("String", "std::string::String"), ("Sync", "std::marker::Sync"),
    ("ToOwned", "std::borrow::ToOwned"), ("ToString", "std::string::ToString"),
    ("TryFrom", "std::convert::TryFrom"), ("TryInto", "std::convert::TryInto"),
    ("Unpin", "std::marker::Unpin"), ("Vec", "std::vec::Vec"), ("drop", "std::mem::drop")]

def ofLanguage : Language → NameRules
  | .python => ⟨["self", "cls", "super"], ["."], ".", .under "builtins" pythonBuiltins⟩
  | .java => ⟨["this", "super"], ["."], ".", .under "java.lang" javaLang⟩
  | .typescript | .tsx | .javascript => ⟨["this", "super"], ["."], ".", .none⟩
  | .go => ⟨[], ["."], ".", .none⟩
  | .rust => ⟨["self", "Self", "super", "crate"], ["::", "."], "::", .table rustPrelude⟩
  | .csharp => ⟨["this", "base"], ["."], ".", .none⟩
  | .php => ⟨["$this", "self", "static", "parent"], ["\\", "::", "->"], "\\", .none⟩

/-- The qualified form of a built-in name. -/
def builtin? (rules : NameRules) (name : String) : Option String :=
  match rules.builtins with
  | .none => Option.none
  | .under root names =>
    if names.contains name then some (root ++ rules.memberJoin ++ name) else Option.none
  | .table entries => (entries.find? fun e => e.1 == name).map (·.2)

end NameRules

end CodeOutline
