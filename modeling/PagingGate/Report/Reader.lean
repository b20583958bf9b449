import PagingGate.Json.Record
import PagingGate.Report

set_option autoImplicit false

namespace PagingGate

open Json (Member Reader Record)

def Statistics.record : Record Statistics Statistics where
  title := "struct Statistics"
  members :=
    [⟨"AllocatedBytes", Reader.float.nullable.mapped fun x s => { s with allocatedBytes := x }⟩,
     ⟨"Operations", Reader.float.nullable.mapped fun x s => { s with operations := x }⟩,
     ⟨"AllocatedB", Reader.float.nullable.mapped fun x s => { s with allocatedPerOperation := x }⟩]
  blank := ⟨none, none, none⟩
  finish := .ok

def Entry.record : Record Entry Entry where
  title := "struct BenchmarkEntry"
  members :=
    [⟨"Method", Reader.text.nullable.mapped fun t e => { e with method := t }⟩,
     ⟨"DisplayInfo", Reader.text.nullable.mapped fun t e => { e with displayInfo := t }⟩,
     ⟨"Statistics", Statistics.record.reader.nullable.mapped fun s e => { e with statistics := s }⟩]
  blank := ⟨none, none, none⟩
  finish := .ok

def Report.record : Record (Option (List Entry)) Report where
  title := "struct BenchmarkReport"
  members := [⟨"Benchmarks", Entry.record.reader.list.mapped fun es _ => some es⟩]
  blank := none
  finish
    | some es => .ok ⟨es⟩
    | none => .error "Benchmarks"

def Report.ofJson (text : String) : Except Json.Error Report := Report.record.reader.document text

end PagingGate
