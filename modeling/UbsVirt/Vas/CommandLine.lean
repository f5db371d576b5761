import Mathlib.Data.List.Lex
import Mathlib.Data.Char
import UbsVirt.Lib.OrderedMap

/-!
# Commands on the wire

`vasctl` parses its arguments into a command and a map of options, writes both into one line with
`;` and `:` between the parts, and sends the line to `vasd`, which splits it again. Neither the
parser nor the writer looks for the separators in a value, and the reader drops an option whose
value is empty: a command arrives as it was given exactly when no value has one of the separators
in it and none is empty. Source: `src/cli/opt_serialize/cmd_serialize.cpp`,
`src/cli/parser/vas_cli_parse.cpp:466-637`, `src/vasctl/arg_parse/vasctl_arg_parse.cpp:52-214`.
-/

namespace UbsVirt.Vas

open List

abbrev Text := List Char

abbrev Params := OrderedMap Text Text

/-- `CmdOption`, `cmd.h:68-71`. -/
structure CmdOption where
  option : Text
  params : Params
  deriving DecidableEq

/-! ### The parser -/

/-- `VasCliSdkOptionsInfo`, without the description. -/
structure OptionsInfo where
  shortOpts : Text
  longOpts : Text

/-- `VasCliSdkCmdInfo`. The function of a command that is sent is given by the option that it
wants to be set, and is `none` for a command that is not sent. -/
structure CmdInfo where
  command : Text
  type : Text
  params : List OptionsInfo
  sends : Option Text

/-- What `RegisterCliModuleSDK` registers. -/
def sdkCmdInfo : List CmdInfo :=
  [⟨"set".toList, "config".toList, [⟨"sp".toList, "sched-policy".toList⟩],
      some "sched-policy".toList⟩,
    ⟨"query".toList, "affinity".toList, [⟨"s".toList, "scope".toList⟩], some "scope".toList⟩,
    ⟨"opt".toList, "reassign".toList, [⟨"s".toList, "scope".toList⟩], some "scope".toList⟩,
    ⟨"opt".toList, "recover".toList, [], none⟩]

def maxValueLength : Nat := 1024

/-- Whether an argument is a long option, and its name, `vas_cli_parse.cpp:471-481`. -/
def optionName (param : Text) : Option (Bool × Text) :=
  if 2 < param.length ∧ param.take 2 = ['-', '-'] then some (true, param.drop 2)
  else if 2 ≤ param.length ∧ param.take 1 = ['-'] ∧ (param.drop 1).take 1 ≠ ['-'] then
    some (false, param.drop 1)
  else none

def OptionsInfo.key (o : OptionsInfo) : Text := if o.longOpts = [] then o.shortOpts else o.longOpts

/-- The loop of `SdkCmdOptParse` with `GenSdkCmdOptParaMap`, `:466-537`, on the arguments that are
left; `none` for `VAS_ERROR`. An empty argument has no option name. -/
def sdkCmdOptParse (cmdOptions : List OptionsInfo) : List Text → Params → Option Params
  | [], params => some params
  | param :: rest, params =>
    match optionName param with
    | none => none
    | some (isLong, name) =>
      match cmdOptions.find? fun o => (if isLong then o.longOpts else o.shortOpts) = name with
      | none => none
      | some o =>
        if params.contains o.key then none
        else
          match rest with
          | [] => none
          | value :: rest =>
            if maxValueLength < value.length then none
            else sdkCmdOptParse cmdOptions rest (params.insert o.key value)

/-- `PrtHelp`, `:574-599`: whether help is printed instead. -/
def needPrtHelp : List Text → Bool
  | [] | [_] => true
  | [_, a] | [_, _, a] | [_, _, _, a] => a = "-h".toList || a = "--help".toList
  | _ => false

/-- `MainExecuteProcess` up to the command that is serialised: the parser finds the command and
its options, and `CliSetConfFunc`, `CliQueryAffinityFunc` or `CliOptReassignFunc` makes the
command of them. -/
def cliCommand (args : List Text) : Option CmdOption :=
  if needPrtHelp args then none
  else
    match args with
    | _ :: command :: type :: rest =>
      match sdkCmdInfo.find? fun info => info.command = command ∧ info.type = type with
      | none => none
      | some info =>
        if rest ≠ [] ∧ info.params = [] then none
        else
          match sdkCmdOptParse info.params rest .empty, info.sends with
          | some params, some key =>
            if params.contains key then some ⟨info.command ++ info.type, params⟩ else none
          | _, _ => none
    | _ => none

/-! ### The line -/

/-- `CmdSerialize::Serialize`, lines 26-35. -/
def serialize (c : CmdOption) : Text :=
  c.option ++ c.params.entries.flatMap fun e => ';' :: (e.1 ++ ':' :: e.2)

/-- What `while (std::getline(iss, line, sep))` reads; `line` has been read so far. At the end of
the text nothing is read if no character was. -/
def getlines (sep : Char) (line : Text) : Text → List Text
  | [] => if line = [] then [] else [line]
  | c :: text => if c = sep then line :: getlines sep [] text else getlines sep (line ++ [c]) text

/-- The loop over one token, lines 53-61. -/
def readParam (params : Params) (token : Text) : Params :=
  match getlines ':' [] token with
  | [key, value] => params.insert key value
  | _ => params

/-- `CmdSerialize::DeSerialize`, lines 37-64; `none` for `VAS_ERROR`. -/
def deSerialize (cmdStr : Text) (c : CmdOption) : Option CmdOption :=
  match getlines ';' [] cmdStr with
  | [] => none
  | option :: tokens => some ⟨option, tokens.foldl readParam c.params⟩

section

variable {sep : Char} {line xs text : Text}

theorem getlines_append (hsep : sep ∉ xs) (text : Text) :
    getlines sep line (xs ++ text) = getlines sep (line ++ xs) text := by
  induction xs generalizing line with
  | nil => rw [nil_append, append_nil]
  | cons x xs ih =>
    rw [mem_cons, not_or] at hsep
    rw [cons_append, getlines, if_neg (Ne.symm hsep.1), ih hsep.2, append_assoc, singleton_append]

theorem getlines_cons_sep (text : Text) :
    getlines sep line (sep :: text) = line :: getlines sep [] text := if_pos rfl

theorem getlines_of_not_mem (hsep : sep ∉ xs) :
    getlines sep [] xs = if xs = [] then [] else [xs] := by
  have h : getlines sep [] (xs ++ []) = getlines sep ([] ++ xs) [] := getlines_append hsep []
  rwa [append_nil, nil_append] at h

/-- No separator is in a line, and no character that is not in the text. -/
theorem not_mem_of_mem_getlines {l : Text} (hl : l ∈ getlines sep line text) (hsep : sep ∉ line) :
    sep ∉ l ∧ ∀ c ∈ l, c ∈ line ∨ c ∈ text := by
  induction text generalizing line with
  | nil =>
    rw [getlines] at hl
    split at hl
    · cases hl
    · rw [mem_singleton.mp hl]
      exact ⟨hsep, fun c hc => .inl hc⟩
  | cons x text ih =>
    rw [getlines] at hl
    split at hl
    · rcases mem_cons.mp hl with rfl | hl
      · exact ⟨hsep, fun c hc => .inl hc⟩
      · obtain ⟨hno, hsub⟩ := ih hl not_mem_nil
        refine ⟨hno, fun c hc => .inr (mem_cons_of_mem x ?_)⟩
        exact (hsub c hc).resolve_left not_mem_nil
    · next hx =>
      obtain ⟨hno, hsub⟩ := ih hl (by simp [hsep, Ne.symm hx])
      refine ⟨hno, fun c hc => ?_⟩
      have := hsub c hc
      rw [mem_append, mem_singleton] at this
      rw [mem_cons]
      tauto

end

def Plain (text : Text) : Prop := ';' ∉ text ∧ ':' ∉ text

instance : DecidablePred Plain := fun _ => inferInstanceAs (Decidable (_ ∧ _))

variable {e : Text × Text}

/-- What the reader takes from a token. -/
theorem getlines_token (hkey : ':' ∉ e.1) (hvalue : ':' ∉ e.2) :
    getlines ':' [] (e.1 ++ ':' :: e.2) = e.1 :: if e.2 = [] then [] else [e.2] := by
  rw [getlines_append hkey, getlines_cons_sep, getlines_of_not_mem hvalue, nil_append]

/-- The reader finds the tokens that were written. -/
theorem getlines_serialize {option : Text} {es : List (Text × Text)} (hoption : ';' ∉ option)
    (hne : option ≠ []) (hes : ∀ e ∈ es, ';' ∉ e.1 ∧ ';' ∉ e.2) :
    getlines ';' [] (option ++ es.flatMap fun e => ';' :: (e.1 ++ ':' :: e.2)) =
      option :: es.map fun e => e.1 ++ ':' :: e.2 := by
  induction es generalizing option with
  | nil =>
    rw [flatMap_nil, append_nil, getlines_of_not_mem hoption, if_neg hne]
    rfl
  | cons e es ih =>
    obtain ⟨hkey, hvalue⟩ := hes e mem_cons_self
    have htoken : ';' ∉ e.1 ++ ':' :: e.2 := by simp [hkey, hvalue]
    rw [flatMap_cons, getlines_append hoption, nil_append, cons_append,
      getlines_cons_sep, ih htoken (by simp) fun d hd => hes d (mem_cons_of_mem e hd)]
    rfl

/-- Where the entries that were read come from. -/
theorem mem_foldl_readParam {tokens : List Text} {params : Params}
    (he : e ∈ (tokens.foldl readParam params).entries) :
    e ∈ params.entries ∨ ∃ token ∈ tokens, getlines ':' [] token = [e.1, e.2] := by
  induction tokens generalizing params with
  | nil => exact .inl he
  | cons token tokens ih =>
    rcases ih he with hmem | ⟨t, ht, heq⟩
    · unfold readParam at hmem
      split at hmem
      · next key value hread =>
        rcases mem_setEntry hmem with rfl | hmem
        · exact .inr ⟨token, mem_cons_self, hread⟩
        · exact .inl hmem
      · exact .inl hmem
    · exact .inr ⟨t, mem_cons_of_mem token ht, heq⟩

/-- A command whose names have no separators is read back exactly when its values have none and
are not empty. -/
theorem deSerialize_serialize_iff {c : CmdOption} (hoption : ';' ∉ c.option) (hne : c.option ≠ [])
    (hkeys : ∀ e ∈ c.params.entries, Plain e.1) :
    deSerialize (serialize c) ⟨[], .empty⟩ = some c ↔
      ∀ e ∈ c.params.entries, Plain e.2 ∧ e.2 ≠ [] := by
  constructor
  · intro h
    -- what was read has no separators, so the values have none
    have hplain : ∀ e ∈ c.params.entries, Plain e.2 := by
      intro e he
      unfold deSerialize at h
      split at h
      · cases h
      · next option tokens hlines =>
        rw [← Option.some.inj h] at he
        obtain ⟨token, htoken, heq⟩ := (mem_foldl_readParam he).resolve_left not_mem_nil
        have hsemi := not_mem_of_mem_getlines (hlines ▸ mem_cons_of_mem option htoken) not_mem_nil
        have hcolon := not_mem_of_mem_getlines (heq ▸ mem_cons_of_mem e.1 mem_cons_self) not_mem_nil
        refine ⟨fun hmem => hsemi.1 ?_, hcolon.1⟩
        exact (hcolon.2 _ hmem).resolve_left not_mem_nil
    intro e he
    refine ⟨hplain e he, ?_⟩
    -- and then each entry comes from the token of an entry, with its value
    rw [deSerialize, serialize, getlines_serialize hoption hne fun d hd =>
      ⟨(hkeys d hd).1, (hplain d hd).1⟩] at h
    rw [← Option.some.inj h] at he
    obtain ⟨token, htoken, heq⟩ := (mem_foldl_readParam he).resolve_left not_mem_nil
    obtain ⟨d, hd, rfl⟩ := mem_map.mp htoken
    rw [getlines_token (hkeys d hd).2 (hplain d hd).2] at heq
    split at heq
    · simp at heq
    · next hvalue =>
      rw [cons.injEq, cons.injEq] at heq
      rwa [← heq.2.1]
  · intro h
    rw [deSerialize, serialize, getlines_serialize hoption hne fun d hd =>
      ⟨(hkeys d hd).1, (h d hd).1.1⟩]
    have hread : ∀ (params : Params), ∀ e ∈ c.params.entries,
        readParam params (e.1 ++ ':' :: e.2) = params.insert e.1 e.2 := by
      intro params e he
      rw [readParam, getlines_token (hkeys e he).2 (h e he).1.2, if_neg (h e he).2]
    dsimp only
    rw [foldl_map, foldl_ext _ _ _ fun params e he => hread params e he,
      c.params.foldl_insert_entries]

/-! ### What the parser produces -/

/-- The keys of the map are those of registered options. -/
theorem mem_sdkCmdOptParse {cmdOptions : List OptionsInfo} {args : List Text}
    {params params' : Params} (h : sdkCmdOptParse cmdOptions args params = some params')
    (he : e ∈ params'.entries) :
    e ∈ params.entries ∨ ∃ o ∈ cmdOptions, e.1 = o.key := by
  fun_induction sdkCmdOptParse cmdOptions args params with
  | case1 params =>
    cases h
    exact .inl he
  | case7 _ _ _ _ _ o hfind _ _ _ _ ih =>
    rcases ih h with hmem | hopt
    · rcases mem_setEntry hmem with rfl | hmem
      · exact .inr ⟨o, mem_of_find?_eq_some hfind, rfl⟩
      · exact .inl hmem
    · exact .inr hopt
  | _ => cases h

/-- The names of the commands and options are plain. -/
theorem sdkCmdInfo_plain : ∀ info ∈ sdkCmdInfo, ';' ∉ info.command ++ info.type ∧
    info.command ++ info.type ≠ [] ∧ ∀ o ∈ info.params, Plain o.key := by
  unfold sdkCmdInfo
  simp [Plain, OptionsInfo.key]

/-- A command that `vasctl` makes of its arguments is read back by `vasd` exactly when no value of
an option has a separator in it and none is empty. -/
theorem cliCommand_read_back_iff {args : List Text} {c : CmdOption} (h : cliCommand args = some c) :
    deSerialize (serialize c) ⟨[], .empty⟩ = some c ↔
      ∀ e ∈ c.params.entries, Plain e.2 ∧ e.2 ≠ [] := by
  unfold cliCommand at h
  split at h
  · cases h
  split at h
  · next command type rest =>
    split at h
    · cases h
    next info hfind =>
    obtain ⟨hoption, hne, hopts⟩ := sdkCmdInfo_plain info (mem_of_find?_eq_some hfind)
    split at h
    · cases h
    split at h
    · next params key hparse _ =>
      split at h
      · cases h
        refine deSerialize_serialize_iff hoption hne fun e he => ?_
        obtain ⟨o, ho, hkey⟩ := (mem_sdkCmdOptParse hparse he).resolve_left not_mem_nil
        rw [hkey]
        exact hopts o ho
      · cases h
    · cases h
  · cases h

def setAffinity : List Text :=
  ["vasctl".toList, "set".toList, "config".toList, "-sp".toList, "affinity".toList]

theorem setAffinity_read_back : ∃ c, cliCommand setAffinity = some c ∧
    deSerialize (serialize c) ⟨[], .empty⟩ = some c := by
  have hc : ∃ c, cliCommand setAffinity = some c ∧ ∀ e ∈ c.params.entries, Plain e.2 ∧ e.2 ≠ [] :=
    ⟨⟨"setconfig".toList, OrderedMap.empty.insert "sched-policy".toList "affinity".toList⟩,
      by decide, by simp [OrderedMap.insert, OrderedMap.empty, setEntry, Plain]⟩
  obtain ⟨c, hc, hvalues⟩ := hc
  exact ⟨c, hc, (cliCommand_read_back_iff hc).mpr hvalues⟩

/-- `vasctl query affinity -s 'a:b'` is sent as `queryaffinity;scope:a:b`, which is read as a query
without a scope. -/
theorem separator_in_value_not_read_back :
    ¬ ∀ args c, cliCommand args = some c → deSerialize (serialize c) ⟨[], .empty⟩ = some c := by
  intro h
  have hread := h ["vasctl".toList, "query".toList, "affinity".toList, "-s".toList, "a:b".toList]
    ⟨"queryaffinity".toList, OrderedMap.empty.insert "scope".toList "a:b".toList⟩ (by decide)
  exact absurd hread (by decide)

end UbsVirt.Vas
