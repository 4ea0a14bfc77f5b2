import LuaToC.Unit.Branch
import LuaToC.Unit.Options

/-! # Statements

The C statements of each operation. They do what the interpreter does for the operation, with the
instruction word in `i` and its first operand in `ra`, and they branch by `goto`: to a label, or
through the two macros that a block defines for the instruction after the next and for the target
of the next jump. About half of the operations are supported; the others have no statements. -/
namespace LuaToC.Statements

open Branch

/-- Lines of fixed text. -/
def code (lines : List String) : List Bytes := lines.map ascii

/-- A line that goes to a position, followed by a remark. -/
def goto (indent : Nat) (target : Int64) (remark : String) : Bytes :=
  List.replicate indent 32 ++ ascii "goto " ++ label target ++ ascii ";" ++ ascii remark

/-- The end of a test: it skips the jump that follows or takes its branch at once. -/
def condJump : List Bytes :=
  code [
    "    if (cond != GETARG_k(i))",
    "      goto LUA_AOT_SKIP1;",
    "    else \x7b",
    "      updatetrap(ci);",
    "      goto LUA_AOT_NEXT_JUMP;",
    "    \x7d"]

/-- Comparison of two registers: whole numbers at once, everything else by a function of
the runtime. -/
def order (operator generic : String) : List Bytes :=
  code [
    "    int cond;",
    "    TValue *rb = vRB(i);",
    "    if (ttisinteger(s2v(ra)) && ttisinteger(rb))"] ++
  [ascii "      cond = (ivalue(s2v(ra)) " ++ ascii operator ++ ascii " ivalue(rb));"] ++
  code ["    else"] ++
  [ascii "      Protect(cond = " ++ ascii generic ++ ascii "(L, s2v(ra), rb));"] ++
  condJump

/-- Comparison of a register with a small number. -/
def orderImmediate (operator float : String) (inverted : Nat) (event : String) : List Bytes :=
  code [
    "    int cond;",
    "    int im = GETARG_sB(i);",
    "    if (ttisinteger(s2v(ra)))"] ++
  [ascii "      cond = (ivalue(s2v(ra)) " ++ ascii operator ++ ascii " im);"] ++
  code [
    "    else if (ttisfloat(s2v(ra))) \x7b",
    "      lua_Number fa = fltvalue(s2v(ra));",
    "      lua_Number fim = cast_num(im);"] ++
  [ascii "      cond = " ++ ascii float ++ ascii "(fa, fim);"] ++
  code [
    "    \x7d",
    "    else \x7b",
    "      int isf = GETARG_C(i);"] ++
  [ascii "      Protect(cond = luaT_callorderiTM(L, s2v(ra), im, " ++ Bytes.ofNat inverted ++
    ascii ", isf, " ++ ascii event ++ ascii "));"] ++
  code ["    \x7d"] ++
  condJump

/-- Comparison with a whole number. -/
def equalImmediate : List Bytes :=
  code [
    "    int cond;",
    "    int im = GETARG_sB(i);",
    "    if (ttisinteger(s2v(ra)))",
    "      cond = (ivalue(s2v(ra)) == im);",
    "    else if (ttisfloat(s2v(ra)))",
    "      cond = luai_numeq(fltvalue(s2v(ra)), cast_num(im));",
    "    else",
    "      cond = 0;  /* other types cannot be equal to a number */"] ++
  condJump

/-- Return of any number of values. -/
def returnMany : List Bytes :=
  code [
    "    int n = GETARG_B(i) - 1;  /* number of results */",
    "    int nparams1 = GETARG_C(i);",
    "    if (n < 0)  /* not fixed? */",
    "      n = cast_int(L->top - ra);  /* get what is available */",
    "    savepc(ci);",
    "    if (TESTARG_k(i)) \x7b  /* may there be open upvalues? */",
    "      if (L->top < ci->top)",
    "        L->top = ci->top;",
    "      luaF_close(L, base, LUA_OK);",
    "      updatetrap(ci);",
    "      updatestack(ci);",
    "    \x7d",
    "    if (nparams1)  /* vararg function? */",
    "      ci->func -= ci->u.l.nextraargs + nparams1;",
    "    L->top = ra + n;  /* set call for 'luaD_poscall' */",
    "    luaD_poscall(L, ci, n);",
    "    return;"]

/-- Return without values. -/
def returnNone : List Bytes :=
  code [
    "    if (L->hookmask) \x7b",
    "      L->top = ra;",
    "      halfProtectNT(luaD_poscall(L, ci, 0));  /* no hurry... */",
    "    \x7d",
    "    else \x7b  /* do the 'poscall' here */",
    "      int nres = ci->nresults;",
    "      L->ci = ci->previous;  /* back to caller */",
    "      L->top = base - 1;",
    "      while (nres-- > 0)",
    "        setnilvalue(s2v(L->top++));  /* all results are nil */",
    "    \x7d",
    "    return;"]

/-- Return of one value. -/
def returnOne : List Bytes :=
  code [
    "    if (L->hookmask) \x7b",
    "      L->top = ra + 1;",
    "      halfProtectNT(luaD_poscall(L, ci, 1));  /* no hurry... */",
    "    \x7d",
    "    else \x7b  /* do the 'poscall' here */",
    "      int nres = ci->nresults;",
    "      L->ci = ci->previous;  /* back to caller */",
    "      if (nres == 0)",
    "        L->top = base - 1;  /* asked for no results */",
    "      else \x7b",
    "        setobjs2s(L, base - 1, ra);  /* at least this result */",
    "        L->top = base;",
    "        while (--nres > 0)  /* complete missing results */",
    "          setnilvalue(s2v(L->top++));",
    "      \x7d",
    "    \x7d",
    "    return;"]

/-- The end of a numeric loop, which goes back to `back` for another round. -/
def numericLoop (back : Int64) : List Bytes :=
  code [
    "    if (ttisinteger(s2v(ra + 2))) \x7b  /* integer loop? */",
    "      lua_Unsigned count = l_castS2U(ivalue(s2v(ra + 1)));",
    "      if (count > 0) \x7b  /* still more iterations? */",
    "        lua_Integer step = ivalue(s2v(ra + 2));",
    "        lua_Integer idx = ivalue(s2v(ra));  /* internal index */",
    "        chgivalue(s2v(ra + 1), count - 1);  /* update counter */",
    "        idx = intop(+, idx, step);  /* add step to index */",
    "        chgivalue(s2v(ra), idx);  /* update internal index */",
    "        setivalue(s2v(ra + 3), idx);  /* and control variable */"] ++
  [goto 8 back " /* jump back */"] ++
  code [
    "      \x7d",
    "    \x7d",
    "    else \x7b  /* floating loop */",
    "      lua_Number step = fltvalue(s2v(ra + 2));",
    "      lua_Number limit = fltvalue(s2v(ra + 1));",
    "      lua_Number idx = fltvalue(s2v(ra));",
    "      idx = luai_numadd(L, idx, step);  /* increment index */",
    "      if (luai_numlt(0, step) ? luai_numle(idx, limit)",
    "                              : luai_numle(limit, idx)) \x7b",
    "        chgfltvalue(s2v(ra), idx);  /* update internal index */",
    "        setfltvalue(s2v(ra + 3), idx);  /* and control variable */"] ++
  [goto 8 back " /* jump back */"] ++
  code [
    "      \x7d",
    "    \x7d",
    "    updatetrap(ci);  /* allows a signal to break the loop */"]

/-- The start of a numeric loop, which goes to `skip` when there is no round. -/
def numericPrepare (skip : Int64) : List Bytes :=
  code [
    "    TValue *pinit = s2v(ra);",
    "    TValue *plimit = s2v(ra + 1);",
    "    TValue *pstep = s2v(ra + 2);",
    "    savestate(L, ci);  /* in case of errors */",
    "    if (ttisinteger(pinit) && ttisinteger(pstep)) \x7b /* integer loop? */",
    "      lua_Integer init = ivalue(pinit);",
    "      lua_Integer step = ivalue(pstep);",
    "      lua_Integer limit;",
    "      if (step == 0)",
    "        luaG_runerror(L, \"'for' step is zero\");",
    "      setivalue(s2v(ra + 3), init);  /* control variable */",
    "      if (forlimit(L, init, plimit, &limit, step))"] ++
  [goto 8 skip " /* skip the loop */"] ++
  code [
    "      else \x7b  /* prepare loop counter */",
    "        lua_Unsigned count;",
    "        if (step > 0) \x7b  /* ascending loop? */",
    "          count = l_castS2U(limit) - l_castS2U(init);",
    "          if (step != 1)  /* avoid division in the too common case */",
    "            count /= l_castS2U(step);",
    "        \x7d",
    "        else \x7b  /* step < 0; descending loop */",
    "          count = l_castS2U(init) - l_castS2U(limit);",
    "          /* 'step+1' avoids negating 'mininteger' */",
    "          count /= l_castS2U(-(step + 1)) + 1u;",
    "        \x7d",
    "        /* store the counter in place of the limit (which won't be",
    "           needed anymore */",
    "        setivalue(plimit, l_castU2S(count));",
    "      \x7d",
    "    \x7d",
    "    else \x7b  /* try making all values floats */",
    "      lua_Number init; lua_Number limit; lua_Number step;",
    "      if (unlikely(!tonumber(plimit, &limit)))",
    "        luaG_forerror(L, plimit, \"limit\");",
    "      if (unlikely(!tonumber(pstep, &step)))",
    "        luaG_forerror(L, pstep, \"step\");",
    "      if (unlikely(!tonumber(pinit, &init)))",
    "        luaG_forerror(L, pinit, \"initial value\");",
    "      if (step == 0)",
    "        luaG_runerror(L, \"'for' step is zero\");",
    "      if (luai_numlt(0, step) ? luai_numlt(limit, init)",
    "                               : luai_numlt(init, limit))"] ++
  [goto 8 skip " /* skip the loop */"] ++
  code [
    "      else \x7b",
    "        /* make sure internal values are all float */",
    "        setfltvalue(plimit, limit);",
    "        setfltvalue(pstep, step);",
    "        setfltvalue(s2v(ra), init);  /* internal index */",
    "        setfltvalue(s2v(ra + 3), init);  /* control variable */",
    "      \x7d",
    "    \x7d"]

/-- The call of the iterator of a generic loop. -/
def iteratorCall : List Bytes :=
  code [
    "    /* 'ra' has the iterator function, 'ra + 1' has the state,",
    "       'ra + 2' has the control variable, and 'ra + 3' has the",
    "       to-be-closed variable. The call will use the stack after",
    "       these values (starting at 'ra + 4')",
    "    */",
    "    /* push function, state, and control variable */",
    "    memcpy(ra + 4, ra, 3 * sizeof(*ra));",
    "    L->top = ra + 4 + 3;",
    "    ProtectNT(luaD_call(L, ra + 4, GETARG_C(i)));  /* do the call */",
    "    updatestack(ci);  /* stack may have changed */",
    "    /* next instruction is TFORLOOP */"]

/-- The statements of an operation at position `pc`, with the instruction word `i`. -/
def ofOpcode (pc : Nat) (i : Instruction) (op : Opcode) : Option (List Bytes) :=
  let here := position pc
  let bx := Int64.ofNat i.bx
  match op with
  | .move => some (code ["    setobjs2s(L, ra, RB(i));"])
  | .loadI => some (
    code [
      "    lua_Integer b = GETARG_sBx(i);",
      "    setivalue(s2v(ra), b);"])
  | .loadF => some (
    code [
      "    int b = GETARG_sBx(i);",
      "    setfltvalue(s2v(ra), cast_num(b));"])
  | .loadK => some (
    code [
      "    TValue *rb = k + GETARG_Bx(i);",
      "    setobj2s(L, ra, rb);"])
  | .loadKX => some (
    code [
      "    TValue *rb;",
      "    rb = k + GETARG_Ax(*LUA_AOT_PC);",
      "    setobj2s(L, ra, rb);",
      "    goto LUA_AOT_SKIP1;"])
  | .loadFalse => some (code ["    setbfvalue(s2v(ra));"])
  | .lFalseSkip => some (
    code [
      "    setbfvalue(s2v(ra));",
      "    goto LUA_AOT_SKIP1;  /* skip next instruction */"])
  | .loadTrue => some (code ["    setbtvalue(s2v(ra));"])
  | .loadNil => some (
    code [
      "    int b = GETARG_B(i);",
      "    do \x7b",
      "      setnilvalue(s2v(ra++));",
      "    \x7d while (b--);"])
  | .getUpval => some (
    code [
      "    int b = GETARG_B(i);",
      "    setobj2s(L, ra, cl->upvals[b]->v);"])
  | .setUpval => some (
    code [
      "    UpVal *uv = cl->upvals[GETARG_B(i)];",
      "    setobj(L, uv->v, s2v(ra));",
      "    luaC_barrier(L, uv, s2v(ra));"])
  | .lnot => some (
    code [
      "    TValue *rb = vRB(i);",
      "    if (l_isfalse(rb))",
      "      setbtvalue(s2v(ra));",
      "    else",
      "      setbfvalue(s2v(ra));"])
  | .close => some (code ["    Protect(luaF_close(L, ra, LUA_OK));"])
  | .jmp => some (
    code ["    updatetrap(ci);"] ++
    [goto 4 (jump here (Int64.ofInt i.sJ)) ""])
  | .eq => some (
    code [
      "    int cond;",
      "    TValue *rb = vRB(i);",
      "    Protect(cond = luaV_equalobj(L, s2v(ra), rb));"] ++
    condJump)
  | .lt => some (order "<" "luaV_lessthan")
  | .le => some (order "<=" "luaV_lessequal")
  | .eqK => some (
    code [
      "    TValue *rb = KB(i);",
      "    /* basic types do not use '__eq'; we can use raw equality */",
      "    int cond = luaV_rawequalobj(s2v(ra), rb);"] ++
    condJump)
  | .eqI => some equalImmediate
  | .ltI => some (orderImmediate "<" "luai_numlt" 0 "TM_LT")
  | .leI => some (orderImmediate "<=" "luai_numle" 0 "TM_LE")
  | .gtI => some (orderImmediate ">" "luai_numgt" 1 "TM_LT")
  | .geI => some (orderImmediate ">=" "luai_numge" 1 "TM_LE")
  | .test => some (
    code ["    int cond = !l_isfalse(s2v(ra));"] ++
    condJump)
  | .testSet => some (
    code [
      "    TValue *rb = vRB(i);",
      "    if (l_isfalse(rb) == GETARG_k(i))",
      "      goto LUA_AOT_SKIP1;",
      "    else \x7b",
      "      setobj2s(L, ra, rb);",
      "      updatetrap(ci);",
      "      goto LUA_AOT_NEXT_JUMP;",
      "    \x7d"])
  | .ret => some returnMany
  | .ret0 => some returnNone
  | .ret1 => some returnOne
  | .forLoop => some (numericLoop (loopBack here bx))
  | .forPrep => some (numericPrepare (loopSkip here bx))
  | .tforPrep => some (
    code [
      "    /* create to-be-closed upvalue (if needed) */",
      "    halfProtect(luaF_newtbcupval(L, ra + 3));"] ++
    [goto 4 (forward here bx) ""])
  | .tforCall => some iteratorCall
  | .tforLoop => some (
    code [
      "    if (!ttisnil(s2v(ra + 4))) \x7b  /* continue loop? */",
      "      setobjs2s(L, ra + 2, ra + 4);  /* save control variable */"] ++
    [goto 6 (loopBack here bx) " /* jump back */"] ++
    code ["    \x7d"])
  | .closure => some (
    code [
      "    Proto *p = cl->p->p[GETARG_Bx(i)];",
      "    halfProtect(pushclosure(L, p, cl->upvals, base, ra));",
      "    checkGC(L, ra + 1);"])
  | .vararg => some (
    code [
      "    int n = GETARG_C(i) - 1;  /* required results */",
      "    Protect(luaT_getvarargs(L, ci, ra, n));"])
  | .varargPrep => some (
    code [
      "    luaT_adjustvarargs(L, GETARG_A(i), ci, cl->p);",
      "    updatetrap(ci);",
      "    if (trap) \x7b",
      "      luaD_hookcall(L, ci);",
      "      L->oldpc = LUA_AOT_PC + 1;  /* next opcode will be seen as a \"new\" line */",
      "    \x7d"])
  | .extraArg => some (code ["    lua_assert(0);"])
  | _ => none

/-- The statements of the instruction at `pc`, when its operation is supported. -/
def supported? (pc : Nat) (i : Instruction) : Option (List Bytes) :=
  i.opcode?.bind (ofOpcode pc i)

/-- What stands in place of an unsupported instruction. -/
def substitute (policy : Policy) (tag : OpTag) : List Bytes :=
  if policy = .fallback then
    code [
      "    luaot_fallback(L, ci, LUA_AOT_PC - 1);",
      "    updatetrap(ci);",
      "    updatebase(ci);"]
  else [ascii "    luaot_unsupported(L, " ++ Text.quoted tag.name ++ ascii ");"]

end LuaToC.Statements
