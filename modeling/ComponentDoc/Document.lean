import ComponentDoc.Extract.Script
import ComponentDoc.Extract.Slots
import ComponentDoc.Markup.Template
import ComponentDoc.Render.Format
import ComponentDoc.Script.Module
import ComponentDoc.Sections

/-!
From a component file to its document. The script and the template are read by passes of their
own, which share nothing; a section that is not there declares nothing. If both passes fail, the
problem of the script counts, and the warnings about the script come before those about the
template.
-/

namespace ComponentDoc

structure Extraction where
  info : ComponentInfo
  warnings : List Problem
deriving Repr, DecidableEq, Inhabited

structure Document where
  text : String
  warnings : List Problem
deriving Repr, DecidableEq, Inhabited

def scriptPass (script : Option ScriptSection) (options : Options) :
    Except Problem (ScriptInfo × List Problem) :=
  match script with
  | none => .ok ({}, [])
  | some script => do
    let defaultExport ← Script.parseModule script.dialect script.text
    (extractScript defaultExport).complete options

def templatePass (template : Option String) (options : Options) :
    Except Problem (Slots × List Problem) :=
  match template with
  | none => .ok (none, [])
  | some template =>
    Pass.complete (do extractSlots (← Markup.parseTemplate template)) options

def Sections.extract (sections : Sections) (options : Options) : Except Problem Extraction := do
  let (info, scriptLog) ← scriptPass sections.script options
  let (slots, templateLog) ← templatePass sections.template options
  return ⟨info.withSlots slots, scriptLog ++ templateLog⟩

def extract (text : String) (options : Options) : Except Problem Extraction :=
  (Sections.ofSource text).extract options

def document (text : String) (options : Options) (columns : ColumnConfig) (format : Format) :
    Except Problem Document := do
  let extraction ← extract text options
  return ⟨format.render extraction.info columns, extraction.warnings⟩

end ComponentDoc
