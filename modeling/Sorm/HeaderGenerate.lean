import Sorm.Generators

/-!
# The header generator

`header_generate.c`: the text of `X_sorm.h`. The `DOUBLE` round of `header_generate_func_set_mem`
has no `break` and goes on with that of `BLOB`.
-/

namespace Sorm

open CReader

def maxLenMacro : Template :=
  fprintf "#define %s__%s__MAX_LEN %d\n" [upperTableName, upperColumnName, [.hole .maxLen]]

def columnMacro : Template :=
  fprintf "#define COLUMN__%s__%s \"%s.%s\"\n"
    [upperTableName, upperColumnName, tableName, columnName]

def headerGenerateDefine : List Part :=
  [.once
    (fprintf "#ifndef %s_SORM_H\n#define %s_SORM_H\n\n" [upperTableName, upperTableName] ++
      fprintf "#include \"sorm.h\"\n\n" []),
    .each fun _ => some maxLenMacro,
    .once
      (fprintf "\n" [] ++
        fprintf "#define %s__ALL_COLUMNS \"%s.*\"\n" [upperTableName, tableName] ++
        fprintf "#define TABLE__%s \"%s\"\n" [upperTableName, tableName]),
    .each fun _ => some columnMacro,
    .once
      (fprintf "\n" [] ++
        fprintf "#define DESC__%s %s_get_desc()\n\n" [upperTableName, tableName] ++
        fprintf "#define %s_list_for_each(data, pos, head) \\
    sorm_list_data_for_each(data, %s_t, pos, head)
\x23define %s_list_for_each_safe(data, pos, scratch, head) \\
    sorm_list_data_for_each_safe(data, %s_t, pos, scratch, head)\n\n"
          [tableName, tableName, tableName, tableName])]

def initOpening : Template :=
  fprintf "#define %s_INIT \x7b %s_table_descriptor, \\\n    " [upperTableName, tableName]

def initRound (column : ColumnDesc) : Option Template :=
  (fprintf "%d, " [[.char '0']] ++ ·) <$>
    match column.type with
    | .int | .int64 | .double => some (fprintf "0, " [])
    | .text => some (fprintf "NULL, " [])
    | .blob => some (fprintf "0, NULL, " [])
    | .unknown _ => none

def initClosing : Template := fprintf " \x7d\n\n" []

def initFunction : Template :=
  fprintf "extern sorm_table_descriptor_t %s_table_descriptor;\n\n" [tableName] ++
    fprintf "static inline void %s_init(%s_t *%s) \x7b
    bzero(%s, sizeof(%s_t)); \n    %s->table_desc = %s_table_descriptor; \n\x7d\n\n"
      [tableName, tableName, tableName, tableName, tableName, tableName, tableName]

def headerGenerateInit : List Part :=
  [.once initOpening, .each initRound, .once initClosing, .once initFunction]

def headerStackMember : Template :=
  fprintf "    char        %s[%s__%s__MAX_LEN + 1];\n\n"
    [columnName, upperTableName, upperColumnName]

def structOpening : Template :=
  fprintf "typedef struct %s_s\n\x7b\n    sorm_table_descriptor_t table_desc;\n\n" [tableName]

def structRound (column : ColumnDesc) : Option Template :=
  ((if column.type = .blob then fprintf "    int         %s_len;\n" [columnName] else []) ++
    fprintf "    sorm_stat_t %s_stat;\n" [columnName] ++ ·) <$>
    match column.type with
    | .int => some (fprintf "    int32_t     %s;\n\n" [columnName])
    | .int64 => some (fprintf "    int64_t     %s;\n\n" [columnName])
    | .text =>
        match column.mem with
        | .heap => some (fprintf "    char*       %s;\n\n" [columnName])
        | .stack => some headerStackMember
        | .none => none
    | .double => some (fprintf "    double      %s;\n\n" [columnName])
    | .blob =>
        match column.mem with
        | .heap => some (fprintf "    void*       %s;\n\n" [columnName])
        | .stack => some headerStackMember
        | .none => none
    | .unknown _ => none

def structClosing : Template := fprintf "\x7d %s_t;\n\n" [tableName]

def headerGenerateStructText : List Part :=
  [.once structOpening, .each structRound, .once structClosing]

def headerGenerateFuncToString : List Part :=
  [.once
    (fprintf "char* %s_to_string(\n        %s_t *%s, char *string, int len);\n\n"
      [tableName, tableName, tableName])]

def headerGenerateFuncGetDesc : List Part :=
  [.once (fprintf "sorm_table_descriptor_t* %s_get_desc();\n\n" [tableName])]

def headerGenerateFuncNew : List Part :=
  [.once
    (fprintf "%s_t* %s_new(const sorm_allocator_t *allocator);\n\n" [tableName, tableName] ++
      fprintf "%s_t* %s_new_array(const sorm_allocator_t *allocator, int num);\n\n"
        [tableName, tableName])]

def headerGenerateFuncFree : List Part :=
  [.once
    (fprintf "void %s_free(const sorm_allocator_t *allocator, %s_t *%s);\n\n"
      [tableName, tableName, tableName] ++
      fprintf "void %s_free_array(const sorm_allocator_t *allocator, %s_t *%s, int n);\n\n"
        [tableName, tableName, tableName])]

def headerGenerateFuncCreateTable : List Part :=
  [.once (fprintf "int %s_create_table(const sorm_connection_t *conn);\n\n" [tableName])]

def headerGenerateFuncDeleteTable : List Part :=
  [.once (fprintf "int %s_delete_table(const sorm_connection_t *conn);\n\n" [tableName])]

def headerGenerateFuncSave : List Part :=
  [.once
    (fprintf "int %s_insert(sorm_connection_t *conn, %s_t *%s);\n"
      [tableName, tableName, tableName] ++
      fprintf "int %s_replace(sorm_connection_t *conn, %s_t *%s);\n\n"
        [tableName, tableName, tableName])]

def headerGenerateFuncUpdate : List Part :=
  [.once
    (fprintf "int %s_update(sorm_connection_t *conn, %s_t *%s);\n\n"
      [tableName, tableName, tableName])]

def setMemArgs : List Template := [tableName, columnName, tableName, tableName, columnName]

def headerSetBlob : Template :=
  fprintf "int %s_set_%s(%s_t *%s, const void* %s, int len);\n" setMemArgs

def headerSetRound (column : ColumnDesc) : Option Template :=
  match column.type with
  | .int => some (fprintf "int %s_set_%s(%s_t *%s, int %s);\n" setMemArgs)
  | .int64 => some (fprintf "int %s_set_%s(%s_t *%s, int64_t %s);\n" setMemArgs)
  | .text => some (fprintf "int %s_set_%s(%s_t *%s, const char* %s);\n" setMemArgs)
  | .double =>
      some (fprintf "int %s_set_%s(%s_t *%s, double %s);\n" setMemArgs ++ headerSetBlob)
  | .blob => some headerSetBlob
  | .unknown _ => none

def newLine : Template := fprintf "\n" []

def headerGenerateFuncSetMem : List Part := [.each headerSetRound, .once newLine]

def headerDeleteRound (column : ColumnDesc) : Option Template :=
  if sormIsUniqueColumn column.constraint then
    match column.type with
    | .int =>
        some (fprintf "int %s_delete_by_%s(const sorm_connection_t *conn, int %s);\n"
          [tableName, columnName, columnName])
    | .int64 =>
        some (fprintf "int %s_delete_by_%s(const sorm_connection_t *conn, int64_t %s);\n"
          [tableName, columnName, columnName])
    | .text =>
        some (fprintf "int %s_delete_by_%s(const sorm_connection_t *conn, char* %s);\n"
          [tableName, columnName, columnName])
    | .double =>
        some (fprintf "int %s_delete_by_%s(const sorm_connection_t *conn, double %s);\n"
          [tableName, columnName, columnName])
    | .blob => some []
    | .unknown _ => none
  else some []

def headerDeleteFuncs : Template :=
  fprintf "int %s_delete(const sorm_connection_t *conn, const %s_t *%s);\n\n"
    [tableName, tableName, tableName] ++
    fprintf "int %s_delete_by(const sorm_connection_t *conn, const char *filter);\n\n"
      [tableName]

def headerGenerateFuncDelete : List Part :=
  [.once headerDeleteFuncs, .each headerDeleteRound, .once newLine]

def selectByArgs : List Template := [tableName, columnName, columnName, tableName, tableName]

def headerSelectRound (column : ColumnDesc) : Option Template :=
  if sormIsUniqueColumn column.constraint then
    match column.type with
    | .int =>
        some (fprintf "int %s_select_by_%s(
        const sorm_connection_t *conn,
        const sorm_allocator_t *allocator,
        const char *column_names, int %s,
        %s_t **%s);\n"
          selectByArgs)
    | .int64 =>
        some (fprintf "int %s_select_by_%s(
        const sorm_connection_t *conn,
        const sorm_allocator_t *allocator,
        const char *column_names, int64_t %s,
        %s_t **%s);\n"
          selectByArgs)
    | .text =>
        some (fprintf "int %s_select_by_%s(
        const sorm_connection_t *conn,
        const sorm_allocator_t *allocator,
        const char *column_names, const char* %s,
        %s_t **%s);\n"
          selectByArgs)
    | .double =>
        some (fprintf "int %s_select_by_%s(
        const sorm_connection_t *conn,
        const sorm_allocator_t *allocator,
        const char *column_names, double* %s,
        %s_t **%s);\n"
          selectByArgs)
    | .blob => some []
    | .unknown _ => none
  else some []

def headerSelectFuncs : Template :=
  newLine ++
    fprintf "int %s_select_some_array_by(
        const sorm_connection_t *conn,
        const sorm_allocator_t *allocator,
        const char *column_names, const char *filter,
        int *n, %s_t **%ss_array);
int %s_select_some_list_by(
        const sorm_connection_t *conn,
        const sorm_allocator_t *allocator,
        const char *column_names, const char *filter,
        int *n, sorm_list_t **%ss_list_head);
int %s_select_all_array_by(
        const sorm_connection_t *conn,
        const sorm_allocator_t *allocator,
        const char *column_names, const char *filter,
        int *n, %s_t **%ss_array);
int %s_select_all_list_by(
        const sorm_connection_t *conn,
        const sorm_allocator_t *allocator,
        const char *column_names, const char *filter,
        int *n, sorm_list_t **%ss_list_head);\n\n"
      [tableName, tableName, tableName, tableName, tableName, tableName, tableName, tableName,
        tableName, tableName] ++
    fprintf "int %s_select_iterate_by_open(
        const sorm_connection_t *conn,
        const sorm_allocator_t *allocator,
        const char *column_names, const char *filter,
        sorm_iterator_t **iterator);
int %s_select_iterate_by(
        sorm_iterator_t *iterator, %s_t **%s);
\x23define %s_select_iterate_close sorm_select_iterate_close
\x23define %s_select_iterate_more sorm_select_iterate_more\n"
      [tableName, tableName, tableName, tableName, tableName, tableName]

def headerGenerateFuncSelect : List Part :=
  [.each headerSelectRound, .once headerSelectFuncs]

def headerGenerateFuncIndex : List Part :=
  [.once
    (fprintf "int %s_create_index(\n        const sorm_connection_t *conn, char *columns_name);\n"
      [tableName] ++
      fprintf "int %s_drop_index(\n        const sorm_connection_t *conn, char *columns_name);\n"
        [tableName])]

def headerGenerateFuncs : List Part :=
  headerGenerateFuncToString ++ headerGenerateFuncGetDesc ++ headerGenerateFuncNew ++
    headerGenerateFuncFree ++ headerGenerateFuncCreateTable ++ headerGenerateFuncDeleteTable ++
    headerGenerateFuncSave ++ headerGenerateFuncUpdate ++ headerGenerateFuncSetMem ++
    headerGenerateFuncDelete ++ headerGenerateFuncSelect ++ headerGenerateFuncIndex

def headerGenerateParts : List Part :=
  headerGenerateDefine ++ (headerGenerateStructText ++ (headerGenerateInit ++ headerGenerateFuncs))

/-- The text of the header; there is none if the generator exits. -/
def headerGenerate (t : GenTable) : Option Text :=
  (printParts t headerGenerateParts).map (· ++ "#endif".toList)

end Sorm
