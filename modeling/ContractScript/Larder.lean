/-
The modules that come with the language. Their text is part of the program;
importing one never touches a file.
-/

set_option autoImplicit false

namespace ContractScript.Larder

/-- A text from its lines. -/
def ofLines (lines : List String) : String :=
  String.join (lines.map (· ++ "\n"))

/-- Helpers for maps. -/
def hashmap : String := ofLines [
  "// Map helpers.",
  "",
  "fun keys(map) \x7b",
  "    return _keys(map);",
  "\x7d",
  "",
  "fun values(map) \x7b",
  "    return _values(map);",
  "\x7d",
  "",
  "fun put(map, key, value) \x7b",
  "    return _put(map, key, value);",
  "\x7d",
  "",
  "fun has(map, key) \x7b",
  "    var ks = _keys(map);",
  "    for (var i = 0; i < len(ks); i = i + 1) \x7b",
  "        if (ks[i] == key) return true;",
  "    \x7d",
  "    return false;",
  "\x7d",
  "",
  "fun get(map, key, fallback) \x7b",
  "    return has(map, key) ? map[key] : fallback;",
  "\x7d"]

/-- Requests over the network. -/
def http : String := ofLines [
  "fun get(url) \x7b",
  "    return _http(url, \"GET\");",
  "\x7d"]

/-- Reading and writing text files. -/
def io : String := ofLines [
  "// Text file access. Relative paths resolve against the script directory.",
  "",
  "fun read(path) \x7b",
  "    return _read(path);",
  "\x7d",
  "",
  "fun write(path, text) \x7b",
  "    return _write(path, text);",
  "\x7d"]

/-- Helpers for lists. -/
def list : String := ofLines [
  "// List helpers. `append` mutates and returns the list.",
  "",
  "fun append(items, value) \x7b",
  "    return _append(items, value);",
  "\x7d",
  "",
  "fun contains(items, value) \x7b",
  "    for (var i = 0; i < len(items); i = i + 1) \x7b",
  "        if (items[i] == value) return true;",
  "    \x7d",
  "    return false;",
  "\x7d",
  "",
  "fun range(n)",
  "    precondition: n >= 0, \"range needs a non-negative count\"",
  "\x7b",
  "    var out = [];",
  "    for (var i = 0; i < n; i = i + 1) \x7b",
  "        _append(out, i);",
  "    \x7d",
  "    return out;",
  "\x7d",
  "",
  "fun reverse(items) \x7b",
  "    var out = [];",
  "    for (var i = len(items) - 1; i >= 0; i = i - 1) \x7b",
  "        _append(out, items[i]);",
  "    \x7d",
  "    return out;",
  "\x7d"]

/-- Arithmetic helpers. -/
def math : String := ofLines [
  "fun floor(x) \x7b",
  "    var t = x - x % 1;",
  "    if (t > x) return t - 1;",
  "    return t;",
  "\x7d",
  "",
  "fun abs(x) \x7b",
  "    return x < 0 ? -x : x;",
  "\x7d",
  "",
  "fun max(a, b) \x7b",
  "    return a > b ? a : b;",
  "\x7d",
  "",
  "fun min(a, b) \x7b",
  "    return a < b ? a : b;",
  "\x7d"]

/-- Random numbers. -/
def random : String := ofLines [
  "import \"larder/math\" as m;",
  "",
  "fun random() \x7b",
  "    return _random();",
  "\x7d",
  "",
  "// Whole number in [lo, hi].",
  "fun randint(lo, hi)",
  "    precondition: lo <= hi",
  "    postcondition: result >= lo, result <= hi",
  "\x7b",
  "    return m::floor(lo + _random() * (hi - lo + 1));",
  "\x7d"]

/-- The bundled modules by name. -/
def modules : List (String × String) :=
  [("hashmap", hashmap), ("http", http), ("io", io), ("list", list), ("math", math), ("random", random)]

/-- The text of a bundled module. -/
def source? (name : String) : Option String :=
  (modules.find? fun entry => entry.1 == name).map Prod.snd

end ContractScript.Larder
