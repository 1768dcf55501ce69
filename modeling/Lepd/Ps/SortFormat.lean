import Lepd.Ps.Globals

/-!
# Sorting and formatting options of ps

The arguments of the options for columns and for sorting are put on a list while
the options are read.  When all are read, each is turned into nodes, and the
nodes are gathered on the lists that the output uses.
-/

namespace Lepd
namespace Ps

/-!
# Tables
-/

structure FormatStruct where
  head : Text
  pr : Text
  sr : Text
  width : Nat
  need : UInt32
  vendor : Nat
  flags : UInt32

def splitItems (isSep : UInt8 -> Bool) : Text -> List Text
  | [] => [[]]
  | c :: cs =>
      if isSep c then [] :: splitItems isSep cs
      else
        match splitItems isSep cs with
        | [] => [[c]]
        | item :: items => (c :: item) :: items

/-- The specifiers that a macro stands for. -/
def macroSpecs (head : Text) : List Text :=
  splitItems (fun c => c == byte ',' || c == byte ' ') head

/-- What the tables of `output.c` have for a name. Macros stand for specifiers
that are no macros. -/
structure Tables where
  searchFormatArray : Text -> Option FormatStruct
  searchMacroArray : Text -> Option Text
  searchAixArray : UInt8 -> Option (Text × Text)
  searchShortsortArray : UInt8 -> Option Text
  macros_flat : forall spec head, searchMacroArray spec = some head ->
    forall item, item ∈ macroSpecs head -> (searchFormatArray item).isSome

/-- What stays the same during a call. -/
structure Context where
  tables : Tables
  sys : System
  env : Environment
  /-- What `get_pid_digits` answers. -/
  pidDigits : Nat
  argv : List Text

/-!
# The state of a call
-/

inductive SfCode where
  | sysvO
  | sysvo
  | bsdO
  | bsdo
  | bsdm
  | gnuSort
  | gnuFormat
deriving DecidableEq

structure SfNode where
  fCooked : List FormatNode
  sCooked : List SortNode
  sf : Text
  sfCode : SfCode

structure State where
  globals : Globals
  sfList : List SfNode
  haveGnuSort : Bool
  alreadyParsedSort : Bool
  alreadyParsedFormat : Bool
  /-- `get_pid_digits` has been called. -/
  pidDigitsRead : Bool
  /-- The number of nodes allocated in this call, and those given back. -/
  nodes : Nat
  freed : List Nat

/-- Why a call does not return. -/
inductive Stop where
  /-- The process exits. -/
  | exit
  /-- A null pointer is followed. -/
  | crash
deriving DecidableEq

abbrev Run : Type -> Type :=
  StateT State (Except Stop)

inductive Err where
  | text (s : String)
  | errbuf
deriving DecidableEq

def stop {value : Type} (reason : Stop) : Run value :=
  fun _ => .error reason

def globals : Run Globals := do
  let s <- get
  return s.globals

def modifyGlobals (f : Globals -> Globals) : Run Unit :=
  modify (fun s => { s with globals := f s.globals })

def newNode : Run Nat := do
  let s <- get
  set { s with nodes := s.nodes + 1 }
  return s.nodes

def free (nodes : List Nat) : Run Unit :=
  modify (fun s => { s with freed := s.freed ++ nodes })

/-!
# Single specifiers
-/

/-- `get_pid_digits` keeps its answer from the first time on. -/
def getPidDigits (ctx : Context) : Run Nat := do
  modify (fun s => { s with pidDigitsRead := true })
  return ctx.pidDigits

def columnWidth (ctx : Context) (fs : FormatStruct) : Run Nat :=
  if has fs.flags cfPidmax then do
    let digits <- getPidDigits ctx
    return max digits fs.head.length
  else return fs.width

def formatNode (ctx : Context) (fs : FormatStruct) (override : Option Text) :
    Run FormatNode := do
  let width <- columnWidth ctx fs
  let node <- newNode
  let name := override.getD fs.head
  return {
    node := node
    name := name
    pr := some fs.pr
    width := if override.isSome then max width name.length else width
    need := fs.need
    vendor := fs.vendor
    flags := fs.flags }

def macroNodes (ctx : Context) (override : Option Text) :
    List Text -> List FormatNode -> Run (List FormatNode)
  | [], list => return list
  | spec :: specs, list =>
      match ctx.tables.searchFormatArray spec with
      | none => stop .crash
      | some fs => do
          let node <- formatNode ctx fs override
          macroNodes ctx override specs (node :: list)

/-- Parse single format specifier.  There are no nodes for an unknown one. -/
def doOneSpec (ctx : Context) (spec : Text) (override : Option Text) :
    Run (List FormatNode) :=
  match ctx.tables.searchFormatArray spec with
  | some fs => do
      let node <- formatNode ctx fs override
      return [node]
  | none =>
      match ctx.tables.searchMacroArray spec with
      | some head => macroNodes ctx override (macroSpecs head) []
      | none => return []

def literalNode (text : Text) : Run FormatNode := do
  let node <- newNode
  return {
    node := node
    name := text
    pr := none
    width := text.length
    need := 0
    vendor := 3
    flags := cfPrintEveryTime }

def oWrap (ctx : Context) (trailer : String) (fCooked : List FormatNode) :
    Run (List FormatNode) := do
  let pid <- doOneSpec ctx (bytes "pid") none
  if pid = [] then stop .exit
  if fCooked = [] then stop .crash
  let default <- doOneSpec ctx (bytes trailer) none
  if default = [] then stop .exit
  return default ++ (fCooked ++ pid)

/-!
# AIX field descriptors
-/

inductive AixItem where
  | desc (c : UInt8)
  | text (t : Text)

/-- The descriptors of a text and what stands between them, or nothing if the
last one lacks its letter. -/
def aixItems : Text -> Text -> Option (List AixItem)
  | before, [] => some (if before = [] then [] else [.text before])
  | before, c :: cs =>
      if c = byte '%' then
        match cs with
        | [] => none
        | d :: rest =>
            (aixItems [] rest).map (fun items =>
              if before = [] then .desc d :: items
              else .text before :: .desc d :: items)
      else aixItems (before ++ [c]) cs

/-- Put the node of each item onto the list; an unknown descriptor ends the loop. -/
def aixNodes (ctx : Context) : List AixItem -> List FormatNode ->
    Run (Option Err × List FormatNode)
  | [], fCooked => return (none, fCooked)
  | .text t :: items, fCooked => do
      let node <- literalNode t
      aixNodes ctx items (node :: fCooked)
  | .desc c :: items, fCooked =>
      if c = byte '%' then do
        let node <- literalNode [c]
        aixNodes ctx items (node :: fCooked)
      else
        match ctx.tables.searchAixArray c with
        | none => return (some (.text "unknown AIX field descriptor"), fCooked)
        | some (spec, head) => do
            let nodes <- doOneSpec ctx spec (some head)
            if nodes = [] then
              return (some (.text "AIX field descriptor processing bug"), fCooked)
            else aixNodes ctx items (nodes ++ fCooked)

def aixFormatParse (ctx : Context) (sf : Text) (fCooked : List FormatNode) :
    Run (Option Err × List FormatNode) :=
  match aixItems [] sf with
  | none => return (some (.text "improper AIX field descriptor"), fCooked)
  | some items => do
      let (err, fCooked) <- aixNodes ctx items fCooked
      if err.isNone then modify (fun s => { s with alreadyParsedFormat := true })
      return (err, fCooked)

/-!
# Lists of format specifiers
-/

def isFormatSep (c : UInt8) : Bool :=
  c == byte ' ' || c == byte ',' || c == 9 || c == 10

/--
The number of items, and whether the text ends behind a separator.  No item may
be empty, but for the last one.
-/
def countItems (isSep : UInt8 -> Bool) : Bool -> Nat -> Text -> Option (Nat × Bool)
  | needItem, items, [] => some (items, needItem)
  | needItem, items, c :: cs =>
      if isSep c then
        if needItem then none else countItems isSep true items cs
      else countItems isSep false (if needItem then items + 1 else items) cs

def listItems (sf : Text) (improper empty : String) : Except Err (List Text) :=
  if sf = [] then .error (.text improper)
  else
    match countItems isFormatSep true 0 sf with
    | none => .error (.text improper)
    | some (items, needItem) =>
        if items = 0 then .error (.text empty)
        else .ok (splitItems isFormatSep (if needItem then sf.dropLast else sf))

def cutAt (c : UInt8) (text : Text) : Text × Option Text :=
  match text.dropWhile (fun d => d != c) with
  | [] => (text, none)
  | _ :: rest => (text.takeWhile (fun d => d != c), some rest)

def badWidth (width : Text) : Bool :=
  !width.all isdigit || width.head? == some (byte '0') || width == []

def overrideWidth (width : Option Text) (nodes : List FormatNode) :
    Option (List FormatNode) :=
  match width, nodes with
  | none, nodes => some nodes
  | some width, [node] => some [{ node with width := atoi width }]
  | some _, _ => none

/-- One item of a list, with a header and a width that may override those of the
specifier. -/
def formatItem (ctx : Context) (item : Text) : Run (Except Err (List FormatNode)) :=
  let (walk, header) := cutAt (byte '=') item
  let (spec, width) := cutAt (byte ':') walk
  if (width.map badWidth).getD false then
    return .error (.text "column widths must be unsigned decimal numbers")
  else do
    let nodes <- doOneSpec ctx spec header
    if nodes = [] then return .error .errbuf
    else
      match overrideWidth width nodes with
      | none =>
          return .error (.text
            "can not set width for a macro (multi-column) format specifier")
      | some nodes => return .ok nodes

def formatItems (ctx : Context) : List Text -> List FormatNode ->
    Run (Option Err × List FormatNode)
  | [], fCooked => return (none, fCooked)
  | item :: items, fCooked => do
      match (<- formatItem ctx item) with
      | .error err => return (some err, fCooked)
      | .ok nodes => formatItems ctx items (nodes ++ fCooked)

/-- Errors may cause a retry looking for AIX format codes. -/
def retryAix (ctx : Context) (sf : Text) (err : Err) (fCooked : List FormatNode) :
    Run (Option Err × List FormatNode) :=
  if byte '%' ∈ sf then aixFormatParse ctx sf fCooked
  else return (some err, fCooked)

def formatParse (ctx : Context) (sf : Text) (fCooked : List FormatNode) :
    Run (Option Err × List FormatNode) :=
  match listItems sf "improper format list" "empty format list" with
  | .error err => retryAix ctx sf err fCooked
  | .ok items => do
      let (err, fCooked) <- formatItems ctx items fCooked
      match err with
      | some err => retryAix ctx sf err fCooked
      | none =>
          modify (fun s => { s with alreadyParsedFormat := true })
          return (none, fCooked)

/-!
# Sort specifiers
-/

def doOneSortSpec (ctx : Context) (spec : Text) : Run (Option SortNode) :=
  let reverse := spec.head? = some (byte '-')
  let name := if reverse ∨ spec.head? = some (byte '+') then spec.drop 1 else spec
  match ctx.tables.searchFormatArray name with
  | none => return none
  | some fs => do
      let node <- newNode
      return some { node := node, sr := fs.sr, reverse := reverse, need := fs.need }

def sortItems (ctx : Context) : List Text -> List SortNode ->
    Run (Option Err × List SortNode)
  | [], sCooked => return (none, sCooked)
  | item :: items, sCooked => do
      match (<- doOneSortSpec ctx item) with
      | none => return (some (.text "unknown sort specifier"), sCooked)
      | some node => sortItems ctx items (node :: sCooked)

def longSortParse (ctx : Context) (sf : Text) (sCooked : List SortNode) :
    Run (Option Err × List SortNode) :=
  match listItems sf "improper sort list" "empty sort list" with
  | .error err => return (some err, sCooked)
  | .ok items => do
      let (err, sCooked) <- sortItems ctx items sCooked
      if err.isNone then modify (fun s => { s with alreadyParsedSort := true })
      return (err, sCooked)

def shortSortCodes : Text :=
  bytes "CGJKMNPRSTUcfgjkmnoprstuvy+-"

def checkCodes (forest : Bool) : List UInt8 -> Text -> Option Err
  | _, [] => none
  | checkoff, c :: cs =>
      if c = byte '+' ∨ c = byte '-' then
        if cs.head? = none ∨ cs.head? = some (byte '+') ∨
          cs.head? = some (byte '-') then
          some (.text "bad sorting code")
        else checkCodes forest checkoff cs
      else if c = byte 'P' ∧ forest then
        some (.text "PPID sort and forest output conflict")
      else if c ∈ checkoff then some (.text "bad sorting code")
      else checkCodes forest (c :: checkoff) cs

/-- Errors must be detected so that the "O" option can try to reparse as
formatting codes. -/
def verifyShortSort (forest : Bool) (arg : Text) : Option Err :=
  if arg.all (fun c => c ∈ shortSortCodes) then checkCodes forest [] arg
  else some (.text "bad sorting code")

def shortSortParse (ctx : Context) : Bool -> Text -> List SortNode ->
    Run (List SortNode)
  | _, [], sCooked => return sCooked
  | direction, c :: cs, sCooked =>
      if c = byte '+' then shortSortParse ctx false cs sCooked
      else if c = byte '-' then shortSortParse ctx true cs sCooked
      else
        match ctx.tables.searchShortsortArray c with
        | none => return sCooked
        | some spec => do
            match (<- doOneSortSpec ctx spec) with
            | none => return sCooked
            | some node =>
                shortSortParse ctx false cs
                  ({ node with reverse := direction } :: sCooked)

/-!
# The list of deferred options
-/

def deferSfOption (arg : Text) (source : SfCode) : Run Unit :=
  modify (fun s => { s with
    sfList := { fCooked := [], sCooked := [], sf := arg, sfCode := source } ::
      s.sfList
    haveGnuSort := s.haveGnuSort || decide (source = .gnuSort) })

def parseSysvO (ctx : Context) (sfn : SfNode) : Run (Option Err × SfNode) := do
  let s <- get
  if s.alreadyParsedFormat then
    return (some (.text "option -O can not follow other format options"), sfn)
  else do
    let (err, fCooked) <- formatParse ctx sfn.sf sfn.fCooked
    match err with
    | some err => return (some err, { sfn with fCooked := fCooked })
    | none => do
        modify (fun s => { s with alreadyParsedFormat := true })
        let fCooked <- oWrap ctx "END_SYS5" fCooked
        return (none, { sfn with fCooked := fCooked })

def parseBSDOFormat (ctx : Context) (err : Err) (sfn : SfNode) :
    Run (Option Err × SfNode) := do
  let s <- get
  if s.alreadyParsedFormat then
    return (some (.text "option O is neither first format nor sort order"), sfn)
  else do
    let (formatErr, fCooked) <- formatParse ctx sfn.sf sfn.fCooked
    match formatErr with
    | some _ => return (some err, { sfn with fCooked := fCooked })
    | none => do
        modify (fun s => { s with alreadyParsedFormat := true })
        let fCooked <- oWrap ctx "END_BSD" fCooked
        return (none, { sfn with fCooked := fCooked })

def parseBSDO (ctx : Context) (sfn : SfNode) : Run (Option Err × SfNode) := do
  let s <- get
  let err :=
    if s.haveGnuSort || s.alreadyParsedSort then
      some (.text "multiple sort options")
    else verifyShortSort (s.globals.forestType != 0) sfn.sf
  match err with
  | none => do
      let sCooked <- shortSortParse ctx false sfn.sf sfn.sCooked
      modify (fun s => { s with alreadyParsedSort := true })
      return (none, { sfn with sCooked := sCooked })
  | some err => parseBSDOFormat ctx err sfn

def parseSort (ctx : Context) (sfn : SfNode) : Run (Option Err × SfNode) := do
  let s <- get
  if s.alreadyParsedSort then return (some (.text "multiple sort options"), sfn)
  else do
    let (err, sCooked) <- longSortParse ctx sfn.sf sfn.sCooked
    modify (fun s => { s with alreadyParsedSort := true })
    return (err, { sfn with sCooked := sCooked })

def parseSfNode (ctx : Context) (sfn : SfNode) : Run (Option Err × SfNode) :=
  match sfn.sfCode with
  | .bsdo | .gnuFormat | .sysvo => do
      let (err, fCooked) <- formatParse ctx sfn.sf sfn.fCooked
      if err.isNone then modify (fun s => { s with alreadyParsedFormat := true })
      return (err, { sfn with fCooked := fCooked })
  | .sysvO => parseSysvO ctx sfn
  | .bsdO => parseBSDO ctx sfn
  | .gnuSort | .bsdm => parseSort ctx sfn

def parseOOption (ctx : Context) : List SfNode -> Run (Option Err × List SfNode)
  | [] => return (none, [])
  | sfn :: next => do
      let (err, next) <- parseOOption ctx next
      if err.isSome then return (err, sfn :: next)
      else do
        let (err, sfn) <- parseSfNode ctx sfn
        return (err, sfn :: next)

/-!
# Giving the lists back
-/

def SfNode.nodes (sfn : SfNode) : List Nat :=
  sfn.fCooked.map FormatNode.node ++ sfn.sCooked.map SortNode.node

def freeSfList : Run Unit := do
  let s <- get
  free (s.sfList.flatMap SfNode.nodes)
  modify (fun s => { s with sfList := [] })

def freeFormatList : Run Unit := do
  let g <- globals
  free (g.formatList.map FormatNode.node)
  modifyGlobals (fun g => { g with formatList := [] })

def freeSortList : Run Unit := do
  let g <- globals
  free (g.sortList.map SortNode.node)
  modifyGlobals (fun g => { g with sortList := [] })

def resetSortformat : Run Unit := do
  freeSfList
  freeFormatList
  freeSortList
  modify (fun s => { s with
    haveGnuSort := false
    alreadyParsedSort := false
    alreadyParsedFormat := false })

/-!
# The format list
-/

def insertAfter (name : Text) (node : FormatNode) :
    List FormatNode -> Option (List FormatNode)
  | [] => none
  | walk :: list =>
      if walk.name = name then some (walk :: node :: list)
      else (insertAfter name node list).map (fun list => walk :: list)

def fmtAddAfter (findme : String) (putme : List FormatNode) : Run Bool := do
  let g <- globals
  match g.formatList, putme with
  | [], _ => stop .crash
  | list, [] =>
      if list.any (fun node => node.name == bytes findme) then stop .crash
      else return false
  | list, node :: _ =>
      match insertAfter (bytes findme) node list with
      | none => return false
      | some list => do
          modifyGlobals (fun g => { g with formatList := list })
          return true

def fmtDelete (findme : String) : Run Unit := do
  let g <- globals
  match g.formatList with
  | [] => stop .crash
  | list =>
      match list.find? (fun node => node.name == bytes findme) with
      | none => return ()
      | some old => do
          free [old.node]
          modifyGlobals (fun g => { g with formatList := list.erase old })

def pushFormats (nodes : List FormatNode) : Run Unit :=
  modifyGlobals (fun g => { g with formatList := nodes.reverse ++ g.formatList })

def pushSpec (ctx : Context) (spec : String) : Run Unit := do
  match (<- doOneSpec ctx (bytes spec) none) with
  | [] => stop .crash
  | node :: _ =>
      modifyGlobals (fun g => { g with formatList := node :: g.formatList })

def pushLiteral (text : String) : Run Unit := do
  let node <- literalNode (bytes text)
  modifyGlobals (fun g => { g with formatList := node :: g.formatList })

def pushWhen (ctx : Context) (condition : Bool) (spec : String) : Run Unit :=
  if condition then pushSpec ctx spec else return ()

def generateSysvList (ctx : Context) : Run (Option Err) := do
  let g <- globals
  let ff := has g.formatFlags
  let fm := has g.formatModifiers
  let per := has g.personality
  let tf := has g.threadFlags
  if fm fmy && !ff ffUl then
    return some (.text "modifier -y without format -l makes no sense")
  else do
    if g.preferBsdDefaults then do
      pushSpec ctx (if g.formatFlags != 0 then "cmd" else "args")
      pushSpec ctx "bsdtime"
      pushWhen ctx (!ff ffUl) "stat"
    else do
      pushSpec ctx (if ff ffUf then "cmd" else "ucmd")
      pushSpec ctx "time"
    pushSpec ctx "tname"
    pushWhen ctx (ff ffUf) "stime"
    pushWhen ctx (fm fmF && !fm fmP) "psr"
    pushWhen ctx (fm fmF && !(ff ffUl && fm fmy)) "rss"
    pushWhen ctx (ff ffUl) "wchan"
    if ff ffUl && !fm fmy && per perIrixl then do
      pushSpec ctx "sgi_rss"
      pushLiteral ":"
    pushWhen ctx (fm fmF || ff ffUl) "sz"
    if ff ffUl then
      pushSpec ctx (if fm fmy then "rss"
        else if per (perZapAddr ||| perIrixl) then "sgi_p" else "addr_1")
    if fm fmc then do
      pushSpec ctx "pri"
      pushSpec ctx "class"
    else if ff ffUl then do
      pushSpec ctx "ni"
      pushSpec ctx (if per perIrixl then "priority" else "opri")
    pushWhen ctx (tf tfUL && ff ffUf) "nlwp"
    pushWhen ctx (ff (ffUf ||| ffUl) && !fm fmc) "c"
    pushWhen ctx (fm fmP) "psr"
    pushWhen ctx (tf tfUL) "lwp"
    pushWhen ctx (fm fmj) "sid"
    pushWhen ctx (fm fmj) "pgid"
    pushWhen ctx (ff (ffUf ||| ffUl)) "ppid"
    pushWhen ctx (tf tfUT) "spid"
    pushSpec ctx "pid"
    if ff ffUf then pushSpec ctx (if per perSaneUser then "user" else "uid_hack")
    else pushWhen ctx (ff ffUl) "uid"
    pushWhen ctx (ff ffUl) "s"
    pushWhen ctx (ff ffUl && !fm fmy) "f"
    pushWhen ctx (fm fmM) "label"
    return none

/-!
# From the options to the lists
-/

def mergeLists : Run Unit :=
  modify (fun s => { s with
    globals := { s.globals with
      formatList := s.sfList.foldl (fun list sfn => sfn.fCooked.reverse ++ list)
        s.globals.formatList
      sortList := s.sfList.foldl (fun list sfn => sfn.sCooked.reverse ++ list)
        s.globals.sortList }
    sfList := s.sfList.map (fun sfn => { sfn with fCooked := [], sCooked := [] }) })

/-- Try to use `$PS_FORMAT` before the default; the result tells whether the
format is settled. -/
def usePsFormat (ctx : Context) : Run (Except Err Bool) := do
  let g <- globals
  match ctx.env.nonempty "PS_FORMAT" with
  | none => return .ok false
  | some format =>
      if has g.threadFlags tfMustUse then
        return .error (.text
          "tell <procps@freelists.org> what you want (-L/-T, -m/m/H, and $PS_FORMAT)")
      else do
        let (err, fCooked) <- formatParse ctx format []
        match err with
        | some _ => return .ok false
        | none => do
            pushFormats fCooked
            return .ok true

def psFormat (ctx : Context) : Run (Except Err Bool) := do
  let g <- globals
  if g.formatFlags == 0 && g.formatModifiers == 0 && g.formatList == [] then
    usePsFormat ctx
  else return .ok false

/-- The format that the flags ask for: none at all, the one that SysV lists, or
a named one. -/
def formatSpec (g : Globals) : Option (Option Text) :=
  if g.formatFlags = 0 then some none
  else if g.formatFlags = ffUf ||| ffUl then some g.sysvFlFormat
  else if g.formatFlags = ffUf then some g.sysvFFormat
  else if g.formatFlags = ffUl then some g.sysvLFormat
  else if g.formatFlags = ffUj then some g.sysvJFormat
  else if g.formatFlags = ffUj ||| ffUl then some (some (bytes "RD_lj"))
  else if g.formatFlags = ffUj ||| ffUf then some (some (bytes "RD_fj"))
  else if g.formatFlags = ffBj then some (some g.bsdJFormat)
  else if g.formatFlags = ffBl then some (some g.bsdLFormat)
  else if g.formatFlags = ffBs then some (some g.bsdSFormat)
  else if g.formatFlags = ffBu then some (some g.bsdUFormat)
  else if g.formatFlags = ffBv then some (some g.bsdVFormat)
  else if g.formatFlags = ffLX then some (some (bytes "OL_X"))
  else if g.formatFlags = ffLm then some (some (bytes "OL_m"))
  else if g.formatFlags = ffFc then some (some (bytes "FLASK_context"))
  else none

def addAfterFirst (putme : List FormatNode) : List String -> Run Bool
  | [] => return false
  | findme :: others => do
      if (<- fmtAddAfter findme putme) then return true
      else addAfterFirst putme others

/-- A column in place of another one. -/
def replaceColumn (ctx : Context) (spec findme : String) : Run Unit := do
  let fn <- doOneSpec ctx (bytes spec) none
  if (<- fmtAddAfter findme fn) then fmtDelete findme else return ()

def modifyJ (ctx : Context) : Run (Option Err) := do
  let fn <- doOneSpec ctx (bytes "pgid") none
  if !(<- addAfterFirst fn ["PPID", "PID"]) then stop .exit
  let fn <- doOneSpec ctx (bytes "sid") none
  if (<- fmtAddAfter "PGID" fn) then return none
  else return some (.text "lost my PGID")

def modifyY (ctx : Context) : Run (Option Err) := do
  fmtDelete "F"
  replaceColumn ctx "rss" "ADDR"
  return none

def modifyC (ctx : Context) : Run (Option Err) := do
  fmtDelete "%CPU"
  fmtDelete "CPU"
  fmtDelete "CP"
  fmtDelete "C"
  fmtDelete "NI"
  let fn <- doOneSpec ctx (bytes "class") none
  if !(<- fmtAddAfter "PRI" fn) then stop .exit
  fmtDelete "PRI"
  let fn <- doOneSpec ctx (bytes "pri") none
  if (<- fmtAddAfter "CLS" fn) then return none
  else return some (.text "lost my CLS")

def modifyT (ctx : Context) : Run (Option Err) := do
  let g <- globals
  let fn <- doOneSpec ctx (bytes "spid") none
  if !(<- fmtAddAfter "PID" fn) && has g.threadFlags tfMustUse then
    return some (.text "-T with H/-m/m but no PID for SPID to follow")
  else return none

def modifyL (ctx : Context) : Run (Option Err) := do
  let g <- globals
  let fn <- doOneSpec ctx (bytes "lwp") none
  if !(<- addAfterFirst fn ["SID", "SESS", "PGID", "PGRP", "PPID", "PID"]) &&
      has g.threadFlags tfMustUse then
    return some (.text "-L with H/-m/m but no PID/PGID/SID/SESS for NLWP to follow")
  else do
    let fn <- doOneSpec ctx (bytes "nlwp") none
    let _ <- fmtAddAfter "%CPU" fn
    return none

def modifyM (ctx : Context) : Run (Option Err) := do
  pushSpec ctx "label"
  return none

def modifyAll : List (Bool × Run (Option Err)) -> Run (Option Err)
  | [] => return none
  | (condition, change) :: changes =>
      if condition then do
        let err <- change
        if err.isSome then return err else modifyAll changes
      else modifyAll changes

def modifyFormat (ctx : Context) : Run (Option Err) := do
  let g <- globals
  modifyAll [
    (has g.formatModifiers fmj, modifyJ ctx),
    (has g.formatModifiers fmy, modifyY ctx),
    (has g.formatModifiers fmc, modifyC ctx),
    (has g.threadFlags tfUT, modifyT ctx),
    (has g.threadFlags tfUL, modifyL ctx),
    (has g.formatModifiers fmM, modifyM ctx),
    (has g.personality perZapAddr && has g.formatFlags ffUl, do
      replaceColumn ctx "sgi_p" "ADDR"
      return none),
    (has g.personality perSaneUser && has g.formatFlags ffUf, do
      replaceColumn ctx "user" "UID"
      return none)]

def standardFormat (ctx : Context) : Run (Option Err) := do
  let g <- globals
  match formatSpec g with
  | none => return some (.text "conflicting format options")
  | some none => generateSysvList ctx
  | some (some spec) => do
      let nodes <- doOneSpec ctx spec none
      pushFormats nodes
      modifyFormat ctx

def userFormat (g : Globals) : Option Err :=
  if g.formatFlags != 0 then some (.text "conflicting format options")
  else if g.formatModifiers != 0 then
    some (.text "can not use output modifiers with user-defined output")
  else if has g.threadFlags tfMustUse then
    some (.text "-L/-T with H/m/-m and -o/-O/o/O is nonsense")
  else none

def settleFormat (ctx : Context) : Run (Option Err) := do
  let g <- globals
  if g.sortList != [] && has g.threadFlags tfNoSort then
    return some (.text "tell <procps@freelists.org> what you expected")
  else do
    match (<- psFormat ctx) with
    | .error err => return some err
    | .ok true => return none
    | .ok false => do
        let g <- globals
        if g.formatList != [] then return userFormat g else standardFormat ctx

def parseSfList (ctx : Context) : Run (Option Err) := do
  let s <- get
  let (err, sfList) <- parseOOption ctx s.sfList
  modify (fun s => { s with sfList := sfList })
  return err

def processSfOptions (ctx : Context) : Run (Option Err) := do
  let err <- parseSfList ctx
  if err.isSome then return err
  else do
    let g <- globals
    if g.formatList != [] then stop .exit
    mergeLists
    settleFormat ctx

end Ps
end Lepd
