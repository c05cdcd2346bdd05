/-
EditJournal.Journal.Describe — a journal as a diagnostic text: its counts and
limits, not its entries.
-/
import EditJournal.Diagnostic
import EditJournal.Journal.Basic

namespace EditJournal

def MergeRules.describe (r : MergeRules) : String :=
  Diagnostic.record "MergeConfig"
    [("window_ms", toString r.windowMs), ("max_entry_bytes", toString r.maxEntryBytes),
      ("merge_across_words", toString r.acrossWords)]

def Config.describe (c : Config) : String :=
  Diagnostic.record "LogConfig"
    [("initial_capacity", toString c.initialCapacity), ("max_entries", toString c.maxEntries),
      ("merge", c.rules.describe)]

def Journal.describe (j : Journal) : String :=
  Diagnostic.record "EntryLog"
    [("len", toString j.length), ("position", toString j.position),
      ("capacity", toString j.capacity), ("total_bytes", toString j.totalBytes),
      ("base_version", toString j.baseVersion), ("config", j.config.describe)]

end EditJournal
