import WasmBindings.Conversion
import WasmBindings.Emit.Writer
import WasmBindings.Method

namespace WasmBindings.Emit.NativeWrapper

def preamble : String :=
  String.intercalate "\n" ["template <typename T>",
    "std::enable_if_t<std::is_arithmetic_v<T>, T> toJsValue(T value) \x7b",
    "  return value;",
    "\x7d",
    "",
    "inline std::string toJsValue(const std::string& value) \x7b",
    "  return value;",
    "\x7d",
    "",
    "inline std::string toJsValue(std::string&& value) \x7b",
    "  return std::move(value);",
    "\x7d",
    "",
    "inline emscripten::val toJsValue(const std::vector<std::string>& values) \x7b",
    "  emscripten::val out = emscripten::val::array();",
    "  for (std::size_t i = 0; i < values.size(); ++i) \x7b",
    "    out.set(i, values[i]);",
    "  \x7d",
    "  return out;",
    "\x7d",
    "",
    "inline emscripten::val toJsValue(std::vector<std::string>& values) \x7b",
    "  return toJsValue(static_cast<const std::vector<std::string>&>(values));",
    "\x7d",
    "",
    "template <typename T>",
    "uintptr_t toJsValue(T* value) \x7b",
    "  return reinterpret_cast<uintptr_t>(value);",
    "\x7d",
    "",
    "template <typename T>",
    "uintptr_t toJsValue(const std::shared_ptr<T>& value) \x7b",
    "  return reinterpret_cast<uintptr_t>(value.get());",
    "\x7d",
    "",
    "template <typename T>",
    "uintptr_t toJsValue(const std::unique_ptr<T>& value) \x7b",
    "  return reinterpret_cast<uintptr_t>(value.get());",
    "\x7d",
    "",
    "template <typename T>",
    "uintptr_t toJsValue(T& value) \x7b",
    "  return reinterpret_cast<uintptr_t>(&value);",
    "\x7d"]

def wrapperName (className : String) (m : Method) (index : Nat) : String :=
  "wrap_" ++ className ++ "_" ++ m.name ++ "_" ++ toString index

def formals (c : Converter) (className : String) (m : Method) : String :=
  className ++ "& self"
    ++ String.join (m.params.map fun p => ", " ++ c.cppParam p.type ++ " " ++ p.name)

def call (c : Converter) (m : Method) : String :=
  "self." ++ m.name ++ "("
    ++ String.intercalate ", " (m.params.map fun p => c.cppArg p.type p.name) ++ ")"

def body (c : Converter) (m : Method) : String :=
  if m.returnType == "void" then call c m ++ ";"
  else "return " ++ c.cppResult m.returnType (call c m) ++ ";"

def wrapper (c : Converter) (className : String) (index : Nat) (m : Method) (w : Writer) : Writer :=
  let result := if m.returnType == "void" then "void" else "auto"
  let header := "static " ++ result ++ " " ++ wrapperName className m index ++ "("
    ++ formals c className m ++ ") \x7b"
  (w.block header (·.line (body c m))).line ""

def wrappersFrom (c : Converter) (className : String) (index : Nat) : List Method → Writer → Writer
  | [], w => w
  | m :: rest, w => wrappersFrom c className (index + 1) rest (wrapper c className index m w)

def wrappers (c : Converter) (className : String) (methods : List Method) (w : Writer) : Writer :=
  wrappersFrom c className 0 methods w

def entries (className : String) (methods : List Method) : List String :=
  let entries := ".constructor<>()" :: methods.mapIdx fun i m =>
    ".function(\"" ++ m.name ++ "\", &" ++ wrapperName className m i ++ ")"
  entries.dropLast ++ [entries.getLastD "" ++ ";"]

def registration (className moduleName : String) (methods : List Method) (w : Writer) : Writer :=
  w.block ("EMSCRIPTEN_BINDINGS(" ++ moduleName ++ ") \x7b") fun w =>
    let w := w.line ("emscripten::class_<" ++ className ++ ">(\"" ++ className ++ "\")")
    (w.indent.linesOf (entries className methods)).dedent

end WasmBindings.Emit.NativeWrapper
