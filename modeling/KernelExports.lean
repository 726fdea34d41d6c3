import KernelExports.Diagnostics
import KernelExports.Elf.File
import KernelExports.Elf.FileHeader
import KernelExports.Elf.GlobalSymbols
import KernelExports.Elf.Image
import KernelExports.Elf.SectionHeader
import KernelExports.Elf.SectionTable
import KernelExports.Elf.StringTable
import KernelExports.Elf.SymbolRecord
import KernelExports.Error
import KernelExports.ExportNames
import KernelExports.Extraction
import KernelExports.FileTree
import KernelExports.Layout
import KernelExports.LittleEndian
import KernelExports.Main
import KernelExports.Options
import KernelExports.Proofs.AppendedData
import KernelExports.Proofs.ByteRanges
import KernelExports.Proofs.ConfirmationMarks
import KernelExports.Proofs.ConfirmationOrder
import KernelExports.Proofs.ExportListing
import KernelExports.Proofs.ExtendedNumbering
import KernelExports.Proofs.ExtractionLaws
import KernelExports.Proofs.FirstListing
import KernelExports.Proofs.FirstSection
import KernelExports.Proofs.ImageLayout
import KernelExports.Proofs.ImageReading
import KernelExports.Proofs.JoinedLists
import KernelExports.Proofs.KeptSymbolNames
import KernelExports.Proofs.MachineAccess
import KernelExports.Proofs.MachineReader
import KernelExports.Proofs.MachineRegistry
import KernelExports.Proofs.MachineSession
import KernelExports.Proofs.MachineSplitter
import KernelExports.Proofs.Opening
import KernelExports.Proofs.RecordReading
import KernelExports.Proofs.Records
import KernelExports.Proofs.Refusals
import KernelExports.Proofs.RegistryHistory
import KernelExports.Proofs.RegistryLaws
import KernelExports.Proofs.RegistryRuns
import KernelExports.Proofs.ReportOrder
import KernelExports.Proofs.ReportReading
import KernelExports.Proofs.RewrittenLists
import KernelExports.Proofs.SectionLookup
import KernelExports.Proofs.Segments
import KernelExports.Proofs.SessionRuns
import KernelExports.Proofs.SharedBytes
import KernelExports.Proofs.SortedListing
import KernelExports.Proofs.StringTables
import KernelExports.Proofs.SymbolEnumeration
import KernelExports.Proofs.SymbolItems
import KernelExports.Proofs.SymbolVisits
import KernelExports.Proofs.UnmarkedRecords
import KernelExports.Proofs.UnreadBytes
import KernelExports.Registry
import KernelExports.Report
import KernelExports.Session
import KernelExports.Style
import KernelExports.Utf8
