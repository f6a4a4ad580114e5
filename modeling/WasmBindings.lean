import WasmBindings.Binary64
import WasmBindings.ClassBody
import WasmBindings.CommandLine
import WasmBindings.Comment
import WasmBindings.Config.Basic
import WasmBindings.Config.FlightDynamics
import WasmBindings.Conversion
import WasmBindings.Cpp.Scope
import WasmBindings.Cpp.Spelling
import WasmBindings.DefaultValue
import WasmBindings.Documents
import WasmBindings.Emit.ApiClass
import WasmBindings.Emit.Banner
import WasmBindings.Emit.Files
import WasmBindings.Emit.NativeWrapper
import WasmBindings.Emit.RawInterface
import WasmBindings.Emit.Writer
import WasmBindings.Enumeration.Basic
import WasmBindings.Enumeration.ClassEnums
import WasmBindings.Enumeration.External
import WasmBindings.Enumeration.Members
import WasmBindings.Enumeration.Resolver
import WasmBindings.Fault
import WasmBindings.FrontEnd
import WasmBindings.Generator
import WasmBindings.HeaderSearch
import WasmBindings.Json.Basic
import WasmBindings.Json.Display
import WasmBindings.Json.Printer
import WasmBindings.Json.Reader
import WasmBindings.Main
import WasmBindings.Metadata
import WasmBindings.Metadata.Build
import WasmBindings.Metadata.Casts
import WasmBindings.Method
import WasmBindings.Method.Extraction
import WasmBindings.Naming
import WasmBindings.Overload
import WasmBindings.ParamName
import WasmBindings.Path
import WasmBindings.Proofs.Agreement
import WasmBindings.Proofs.Binary64
import WasmBindings.Proofs.CamelCase
import WasmBindings.Proofs.Carrier
import WasmBindings.Proofs.Casts
import WasmBindings.Proofs.ClassBody
import WasmBindings.Proofs.ClassEnums
import WasmBindings.Proofs.ConstReference
import WasmBindings.Proofs.ConstantValue
import WasmBindings.Proofs.Cpp.Adornment
import WasmBindings.Proofs.Cpp.EnumKey
import WasmBindings.Proofs.Cpp.Normal
import WasmBindings.Proofs.Cpp.Scope
import WasmBindings.Proofs.Cpp.Spelling
import WasmBindings.Proofs.Cpp.Tokens
import WasmBindings.Proofs.DefaultValue
import WasmBindings.Proofs.Dispatch
import WasmBindings.Proofs.Distinct
import WasmBindings.Proofs.DocComment
import WasmBindings.Proofs.Documents
import WasmBindings.Proofs.EnumLookup
import WasmBindings.Proofs.EnumTable
import WasmBindings.Proofs.Enumerators
import WasmBindings.Proofs.ExportedNames
import WasmBindings.Proofs.ExternalDecl
import WasmBindings.Proofs.ExternalEnums
import WasmBindings.Proofs.Extraction
import WasmBindings.Proofs.FillCases
import WasmBindings.Proofs.FlagGroups
import WasmBindings.Proofs.Formals
import WasmBindings.Proofs.FrontEnd
import WasmBindings.Proofs.Generation
import WasmBindings.Proofs.HeaderSearch
import WasmBindings.Proofs.Imports
import WasmBindings.Proofs.InterfaceModule
import WasmBindings.Proofs.Json.Reader
import WasmBindings.Proofs.MemberNames
import WasmBindings.Proofs.MethodGroup
import WasmBindings.Proofs.Naming
import WasmBindings.Proofs.NumberDefault
import WasmBindings.Proofs.Outcome
import WasmBindings.Proofs.OverrideTargets
import WasmBindings.Proofs.Overrides
import WasmBindings.Proofs.ParamName
import WasmBindings.Proofs.ProbeCalls
import WasmBindings.Proofs.Qualification
import WasmBindings.Proofs.RelativePath
import WasmBindings.Proofs.Reporting
import WasmBindings.Proofs.Resolution
import WasmBindings.Proofs.ReturnType
import WasmBindings.Proofs.Signature
import WasmBindings.Proofs.SmallName
import WasmBindings.Proofs.TemplateArgument
import WasmBindings.Proofs.Text.Blank
import WasmBindings.Proofs.Text.Decimal
import WasmBindings.Proofs.Text.Run
import WasmBindings.Proofs.TextDefault
import WasmBindings.Proofs.Traversal
import WasmBindings.Proofs.Truncation
import WasmBindings.Proofs.TypeTable
import WasmBindings.Proofs.Workspace.Description
import WasmBindings.Proofs.Workspace.FileTree
import WasmBindings.Proofs.Workspace.Temporary
import WasmBindings.Signature
import WasmBindings.Table
import WasmBindings.Text.Blank
import WasmBindings.Text.Case
import WasmBindings.Text.CaseData
import WasmBindings.Text.Digit
import WasmBindings.Text.Interval
import WasmBindings.Text.Numeral
import WasmBindings.Text.Printable
import WasmBindings.Text.Run
import WasmBindings.Text.Search
import WasmBindings.Text.Utf8
import WasmBindings.Text.WordChar
import WasmBindings.Tree
import WasmBindings.Tree.Access
import WasmBindings.Workspace.Compiler
import WasmBindings.Workspace.Description
import WasmBindings.Workspace.FileTree
import WasmBindings.Workspace.Session
