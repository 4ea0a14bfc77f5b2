import LuaToC.Text.Quoted

/-! # Options

What can be chosen about a generated unit. -/
namespace LuaToC

/-- What happens to an unsupported instruction. Policies are numbered; a number
without a name acts like `trap`. -/
structure Policy where
  code : Int64
  deriving DecidableEq

namespace Policy

/-- Generation fails and lists every such instruction. -/
def error : Policy := ⟨0⟩

/-- A call is generated that aborts when the instruction is reached. -/
def trap : Policy := ⟨1⟩

/-- The instruction is handed back to the interpreter. -/
def fallback : Policy := ⟨2⟩

/-- The policies that have names, in the order of their numbers. -/
def named : List (Policy × String) :=
  [(error, "error"), (trap, "trap"), (fallback, "fallback")]

/-- The name of a policy, and a placeholder for numbers without one. -/
def name (p : Policy) : Bytes :=
  match named.lookup p with
  | some s => ascii s
  | none => ascii "Policy(" ++ Bytes.ofInt p.code.toInt ++ ascii ")"

/-- A policy that is not known by the name. -/
structure UnknownName where
  name : Bytes
  deriving DecidableEq

/-- The wording of the refusal. -/
def UnknownName.message (e : UnknownName) : Bytes :=
  ascii "unknown unsupported-opcode policy " ++ Text.quoted e.name ++ ascii " (want " ++
    Bytes.join (ascii ", ") (named.map fun (_, s) => ascii s) ++ ascii ")"

/-- The policy with a name. -/
def parse (s : Bytes) : Except UnknownName Policy :=
  match named.find? fun (_, n) => ascii n = s with
  | some (p, _) => .ok p
  | none => .error ⟨s⟩

end Policy

/-- The choices about a generated unit: the glue files that it includes first and last, how
its functions are named, whether instructions are annotated, whether the input is embedded,
and what happens to unsupported instructions. -/
structure Options where
  header : Bytes
  footer : Bytes
  functionPrefix : Bytes
  comments : Bool
  embedSource : Bool
  policy : Policy
  deriving DecidableEq

namespace Options

/-- The choices that go with the stock glue. -/
def default : Options where
  header := ascii "luaot_header.c"
  footer := ascii "luaot_footer.c"
  functionPrefix := ascii "magic_implementation_"
  comments := true
  embedSource := true
  policy := .error

/-- A text, or the default when it is empty. -/
def orDefault (s d : Bytes) : Bytes := if s = [] then d else s

/-- The same choices with the defaults for empty texts. -/
def completed (o : Options) : Options :=
  { o with
    header := orDefault o.header default.header
    footer := orDefault o.footer default.footer
    functionPrefix := orDefault o.functionPrefix default.functionPrefix }

end Options
end LuaToC
