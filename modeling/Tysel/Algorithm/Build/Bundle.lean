/-! `emit_bundle` without its source map. Texts are lists of characters, and `jsString` is the JSON
form of a string. -/

namespace Tysel.Build

abbrev Text := List Char

structure CompiledModule where
  id : Text
  factory : Text

def runtime : Text := "var __tysel_require = (function () \x7b
  var modules = Object.create(null);
  var cache = Object.create(null);
  function define(id, factory) \x7b
    modules[id] = factory;
  \x7d
  function require(id) \x7b
    if (!Object.prototype.hasOwnProperty.call(modules, id)) \x7b
      throw new Error(\"Cannot find module \" + id);
    \x7d
    if (Object.prototype.hasOwnProperty.call(cache, id)) \x7b
      return cache[id].exports;
    \x7d
    var module = \x7b exports: \x7b\x7d \x7d;
    cache[id] = module;
    modules[id].call(module.exports, module, module.exports, require);
    return module.exports;
  \x7d
".toList

/-- A line that has ended with a line feed, without the carriage return before it. -/
def stripReturn (line : Text) : Text :=
  if line.getLast? = some '\r' then line.dropLast else line

/-- `str::lines` behind the characters of the line so far. -/
def linesFrom (line : Text) : Text → List Text
  | [] => if line = [] then [] else [line]
  | c :: rest =>
    if c = '\n' then stripReturn line :: linesFrom [] rest else linesFrom (line ++ [c]) rest

def indented (line : Text) : Text := ' ' :: ' ' :: line ++ ['\n']

def emitFactory (factory : Text) : Text :=
  match linesFrom [] factory with
  | [] => ['\n']
  | lines => lines.flatMap indented

variable (jsString : Text → Text)

def defineHead (module : CompiledModule) : Text :=
  "  define(".toList ++ jsString module.id ++ ", function (module, exports, require) \x7b\n".toList

def emitModule (module : CompiledModule) : Text :=
  defineHead jsString module ++ emitFactory module.factory ++ "  \x7d);\n".toList

def emitEntry (entryId : Text) : Text :=
  "  return require;\n\x7d)();\nvar __tysel_entry = __tysel_require(".toList ++ jsString entryId ++
    ");\nexport default __tysel_entry.default !== void 0 ? __tysel_entry.default : ".toList ++
    "__tysel_entry;\n".toList

def emitBundle (modules : List CompiledModule) (entryId : Text) : Text :=
  runtime ++ modules.flatMap (emitModule jsString) ++ emitEntry jsString entryId

end Tysel.Build
